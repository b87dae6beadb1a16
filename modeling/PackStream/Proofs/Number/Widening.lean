import PackStream.Number.Binary64

/-!
# What a number of 32 bits is widened to

Every number of the 32-bit format is one of the 64-bit format. The two are compared through their
magnitudes, as multiples of the smallest positive number of each format: `2 ^ (-149)` and
`2 ^ (-1074)`, so that one of the first are `2 ^ 925` of the second. Infinities and the signs of
zeros are kept, and a NaN keeps its sign and its payload and is made quiet.

Main statement: `Binary32.widens_iff`, exactly one pattern is what this says.
-/

set_option autoImplicit false

namespace PackStream

/-! ## Patterns and their fields -/

/-- The top bit of a word as a number. -/
theorem toNat_decide_le {n top : Nat} (lt : n < 2 * top) : (decide (top ≤ n)).toNat = n / top := by
  by_cases high : top ≤ n
  · rw [decide_eq_true high, Nat.div_eq_of_lt_le (k := 1) (by omega) (by omega)]
    rfl
  · rw [decide_eq_false high, Nat.div_eq_of_lt (Nat.lt_of_not_le high)]
    rfl

namespace Binary64

theorem exponent_eq (x : Binary64) :
    x.exponent = x.bits.toNat / 0x10000000000000 % 0x800 := by
  simp [exponent, Nat.shiftRight_eq_div_pow]

theorem fraction_eq (x : Binary64) : x.fraction = x.bits.toNat % 0x10000000000000 := by
  simp [fraction]

theorem negative_eq (x : Binary64) : x.negative = decide (0x8000000000000000 ≤ x.bits.toNat) := by
  simp [negative]

/-- A pattern is its three fields side by side. -/
theorem toNat_bits (x : Binary64) :
    x.bits.toNat = 0x8000000000000000 * x.negative.toNat + 0x10000000000000 * x.exponent +
      x.fraction := by
  have lt := x.bits.toNat_lt
  rw [negative_eq, exponent_eq, fraction_eq, toNat_decide_le (by omega)]
  omega

/-- A pattern is settled by its fields. -/
theorem eq_of_fields {x y : Binary64} (negative : x.negative = y.negative)
    (exponent : x.exponent = y.exponent) (fraction : x.fraction = y.fraction) : x = y := by
  have same : x.bits.toNat = y.bits.toNat := by
    rw [x.toNat_bits, y.toNat_bits, negative, exponent, fraction]
  cases x
  cases y
  exact congrArg mk (UInt64.toNat_inj.1 same)

/-- The fields that a pattern is made of are those it has. -/
theorem fields_ofFields (negative : Bool) {exponent fraction : Nat} (he : exponent < 0x800)
    (hf : fraction < 0x10000000000000) :
    (ofFields negative exponent fraction).negative = negative ∧
      (ofFields negative exponent fraction).exponent = exponent ∧
      (ofFields negative exponent fraction).fraction = fraction := by
  have top : (if negative then 1 <<< 63 else 0) = 0x8000000000000000 * negative.toNat := by
    cases negative <;> rfl
  have bit : negative.toNat ≤ 1 := Bool.toNat_le negative
  have word : (ofFields negative exponent fraction).bits.toNat =
      0x8000000000000000 * negative.toNat + 0x10000000000000 * exponent + fraction := by
    rw [ofFields, top, Nat.shiftLeft_eq, UInt64.toNat_ofNat']
    omega
  rw [negative_eq, exponent_eq, fraction_eq, word]
  refine ⟨?_, by omega, by omega⟩
  cases negative with
  | false => exact decide_eq_false (by simp; omega)
  | true => exact decide_eq_true (by simp; omega)

theorem fraction_lt (x : Binary64) : x.fraction < 0x10000000000000 := by
  rw [fraction_eq]
  exact Nat.mod_lt _ (by decide)

/-! ## Magnitudes -/

/-- The magnitude of a finite number, in units of the smallest positive one, `2 ^ (-1074)`. -/
def magnitude (x : Binary64) : Nat :=
  if x.exponent = 0 then x.fraction else (1 <<< 52 + x.fraction) <<< (x.exponent - 1)

/-- A greater exponent makes for a greater magnitude. -/
theorem magnitude_lt_of_exponent_lt {x y : Binary64} (h : x.exponent < y.exponent) :
    x.magnitude < y.magnitude := by
  have small := x.fraction_lt
  have normal : y.exponent ≠ 0 := Nat.ne_zero_of_lt h
  have least : 0x10000000000000 * 2 ^ (y.exponent - 1) ≤ y.magnitude := by
    rw [magnitude, if_neg normal, Nat.shiftLeft_eq]
    exact Nat.mul_le_mul_right _ (Nat.le_add_right _ _)
  refine Nat.lt_of_lt_of_le ?_ least
  by_cases subnormal : x.exponent = 0
  · rw [magnitude, if_pos subnormal]
    exact Nat.lt_of_lt_of_le small (Nat.le_mul_of_pos_right _ (Nat.two_pow_pos _))
  · rw [magnitude, if_neg subnormal, Nat.shiftLeft_eq]
    have doubled : (2 : Nat) ^ x.exponent = 2 * 2 ^ (x.exponent - 1) := by
      rw [← Nat.pow_succ', Nat.succ_eq_add_one, Nat.sub_add_cancel (Nat.pos_of_ne_zero subnormal)]
    calc (1 <<< 52 + x.fraction) * 2 ^ (x.exponent - 1)
      _ < (0x10000000000000 * 2) * 2 ^ (x.exponent - 1) :=
        Nat.mul_lt_mul_of_pos_right (by simp; omega) (Nat.two_pow_pos _)
      _ = 0x10000000000000 * 2 ^ x.exponent := by rw [doubled, Nat.mul_assoc]
      _ ≤ 0x10000000000000 * 2 ^ (y.exponent - 1) :=
        Nat.mul_le_mul_left _ (Nat.pow_le_pow_right Nat.two_pos (Nat.le_sub_one_of_lt h))

/-- Finite numbers of one sign and one magnitude have one pattern. -/
theorem eq_of_magnitude {x y : Binary64} (negative : x.negative = y.negative)
    (same : x.magnitude = y.magnitude) : x = y := by
  have exponent : x.exponent = y.exponent := by
    obtain less | equal | greater := Nat.lt_trichotomy x.exponent y.exponent
    · exact absurd same (Nat.ne_of_lt (magnitude_lt_of_exponent_lt less))
    · exact equal
    · exact absurd same (Nat.ne_of_gt (magnitude_lt_of_exponent_lt greater))
  refine eq_of_fields negative exponent ?_
  unfold magnitude at same
  rw [exponent] at same
  by_cases subnormal : y.exponent = 0
  · rwa [if_pos subnormal, if_pos subnormal] at same
  · rw [if_neg subnormal, if_neg subnormal, Nat.shiftLeft_eq _ (_ - 1),
      Nat.shiftLeft_eq _ (_ - 1)] at same
    exact Nat.add_left_cancel (Nat.eq_of_mul_eq_mul_right (Nat.two_pow_pos _) same)

end Binary64

namespace Binary32

/-- A pattern is its three fields side by side. -/
theorem toNat_bits (x : Binary32) :
    x.bits.toNat = 0x80000000 * x.negative.toNat + 0x800000 * x.exponent + x.fraction := by
  have lt := x.bits.toNat_lt
  have sign : x.negative = decide (0x80000000 ≤ x.bits.toNat) := by simp [negative]
  have middle : x.exponent = x.bits.toNat / 0x800000 % 0x100 := by
    simp [exponent, Nat.shiftRight_eq_div_pow]
  have low : x.fraction = x.bits.toNat % 0x800000 := by simp [fraction]
  rw [sign, middle, low, toNat_decide_le (by omega)]
  omega

theorem exponent_lt (x : Binary32) : x.exponent < 0x100 :=
  Nat.mod_lt _ (by decide)

theorem fraction_lt (x : Binary32) : x.fraction < 0x800000 :=
  Nat.mod_lt _ (by decide)

/-- The magnitude of a finite number, in units of the smallest positive one, `2 ^ (-149)`. -/
def magnitude (x : Binary32) : Nat :=
  if x.exponent = 0 then x.fraction else (1 <<< 23 + x.fraction) <<< (x.exponent - 1)

/-! ## Widening -/

/-- What it is for a pattern of 64 bits to stand for what one of 32 bits stands for: the sign is the
same, a NaN is made quiet and keeps the other bits of its payload, an infinity stays one, and a
finite number keeps its magnitude. -/
structure Widens (x : Binary32) (y : Binary64) : Prop where
  negative : y.negative = x.negative
  nan (special : x.exponent = 0xFF) (payload : x.fraction ≠ 0) :
    y.exponent = 0x7FF ∧ y.fraction = 0x8000000000000 + (x.fraction % 0x400000) <<< 29
  infinite (special : x.exponent = 0xFF) (empty : x.fraction = 0) :
    y.exponent = 0x7FF ∧ y.fraction = 0
  finite (number : x.exponent ≠ 0xFF) :
    y.exponent ≠ 0x7FF ∧ y.magnitude = x.magnitude <<< 925

theorem Widens.unique {x : Binary32} {y z : Binary64} (hy : x.Widens y) (hz : x.Widens z) :
    y = z := by
  have negative : y.negative = z.negative := hy.negative.trans hz.negative.symm
  by_cases number : x.exponent ≠ 0xFF
  · have magnitude := (hy.finite number).2.trans (hz.finite number).2.symm
    exact Binary64.eq_of_magnitude negative magnitude
  have special : x.exponent = 0xFF := Decidable.not_not.1 number
  by_cases empty : x.fraction = 0
  · obtain ⟨ey, fy⟩ := hy.infinite special empty
    obtain ⟨ez, fz⟩ := hz.infinite special empty
    exact Binary64.eq_of_fields negative (ey.trans ez.symm) (fy.trans fz.symm)
  · obtain ⟨ey, fy⟩ := hy.nan special empty
    obtain ⟨ez, fz⟩ := hz.nan special empty
    exact Binary64.eq_of_fields negative (ey.trans ez.symm) (fy.trans fz.symm)

/-- A NaN or an infinity is widened to one with the same sign. -/
theorem widens_of_special {x : Binary32} (special : x.exponent = 0xFF) : x.Widens x.widen := by
  have small := x.fraction_lt
  obtain ⟨fraction, widened, infinite, nan⟩ : ∃ fraction,
      x.widen = .ofFields x.negative 0x7FF fraction ∧ (x.fraction = 0 → fraction = 0) ∧
        (x.fraction ≠ 0 → fraction = 0x8000000000000 + (x.fraction % 0x400000) <<< 29) := by
    refine ⟨_, if_pos special, ?_, ?_⟩
    · intro empty
      simp [empty]
    · intro payload
      simp only [Nat.shiftLeft_eq]
      split <;> omega
  have bound : fraction < 0x10000000000000 := by
    by_cases empty : x.fraction = 0
    · rw [infinite empty]
      decide
    · rw [nan empty, Nat.shiftLeft_eq]
      omega
  obtain ⟨sign, exponent, own⟩ :=
    Binary64.fields_ofFields x.negative (by decide : 0x7FF < 0x800) bound
  rw [widened]
  exact
    { negative := sign
      nan := fun _ payload => ⟨exponent, own.trans (nan payload)⟩
      infinite := fun _ empty => ⟨exponent, own.trans (infinite empty)⟩
      finite := fun number => absurd special number }

/-- A pattern with the sign and the magnitude of a finite number is what it is widened to. -/
theorem widens_of_finite {x : Binary32} (number : x.exponent ≠ 0xFF) {exponent fraction : Nat}
    (he : exponent < 0x7FF) (hf : fraction < 0x10000000000000)
    (magnitude : (if exponent = 0 then fraction else (1 <<< 52 + fraction) <<< (exponent - 1)) =
      x.magnitude <<< 925) : x.Widens (.ofFields x.negative exponent fraction) := by
  obtain ⟨sign, own, own'⟩ :=
    Binary64.fields_ofFields x.negative (Nat.lt_succ_of_lt he) hf
  refine ⟨sign, fun special => absurd special number, fun special => absurd special number, ?_⟩
  intro _
  rw [Binary64.magnitude, own, own']
  exact ⟨Nat.ne_of_lt he, magnitude⟩

theorem widens_of_normal {x : Binary32} (number : x.exponent ≠ 0xFF) (normal : x.exponent ≠ 0) :
    x.Widens x.widen := by
  have small := x.fraction_lt
  have low := x.exponent_lt
  have widened : x.widen = .ofFields x.negative (x.exponent + 896) (x.fraction <<< 29) := by
    have finite : x.exponent ≠ maxExponent := number
    rw [widen, if_neg finite, if_pos normal]
  rw [widened]
  refine widens_of_finite number (by omega) (by rw [Nat.shiftLeft_eq]; omega) ?_
  have shifted : 1 <<< 52 + x.fraction <<< 29 = (1 <<< 23 + x.fraction) <<< 29 := by
    simp only [Nat.shiftLeft_eq]
    omega
  have places : 29 + (x.exponent + 896 - 1) = x.exponent - 1 + 925 := by omega
  rw [if_neg (Nat.succ_ne_zero _), shifted, ← Nat.shiftLeft_add, places, Nat.shiftLeft_add,
    magnitude, if_neg normal]

/-- The leading bit of a subnormal number becomes the implicit one. -/
theorem widens_of_subnormal {x : Binary32} (subnormal : x.exponent = 0) : x.Widens x.widen := by
  have number : x.exponent ≠ 0xFF := by simp [subnormal]
  have finite : x.exponent ≠ maxExponent := number
  have own : x.magnitude = x.fraction := if_pos subnormal
  by_cases zero : x.fraction = 0
  · have widened : x.widen = .ofFields x.negative 0 0 := by
      rw [widen, if_neg finite, if_neg (not_not_intro subnormal), if_pos zero]
    rw [widened]
    refine widens_of_finite number (by decide) (by decide) ?_
    rw [own, zero, if_pos rfl, Nat.zero_shiftLeft]
  · have widened : x.widen = .ofFields x.negative (x.fraction.log2 + 874)
        ((x.fraction - 1 <<< x.fraction.log2) <<< (52 - x.fraction.log2)) := by
      rw [widen, if_neg finite, if_neg (not_not_intro subnormal), if_neg zero]
    have small := x.fraction_lt
    have least := Nat.log2_self_le zero
    have most := Nat.lt_log2_self (n := x.fraction)
    have lead : x.fraction.log2 < 23 := (Nat.log2_lt zero).2 small
    generalize x.fraction.log2 = k at *
    have unit : (2 : Nat) ^ k * 2 ^ (52 - k) = 2 ^ 52 := by
      rw [← Nat.pow_add, Nat.add_sub_of_le (by omega)]
    rw [widened]
    refine widens_of_finite number (by omega) ?_ ?_
    · simp only [Nat.shiftLeft_eq, Nat.one_mul]
      calc (x.fraction - 2 ^ k) * 2 ^ (52 - k)
        _ < 2 ^ k * 2 ^ (52 - k) := Nat.mul_lt_mul_of_pos_right (by omega) (Nat.two_pow_pos _)
        _ = 0x10000000000000 := unit
    · have shifted : 1 <<< 52 + (x.fraction - 1 <<< k) <<< (52 - k) = x.fraction <<< (52 - k) := by
        simp only [Nat.shiftLeft_eq, Nat.one_mul]
        rw [← unit, ← Nat.add_mul, Nat.add_sub_of_le least]
      have places : 52 - k + (k + 874 - 1) = 925 := by omega
      rw [if_neg (Nat.succ_ne_zero _), shifted, ← Nat.shiftLeft_add, places, own]

/-- Widening yields the one pattern that stands for the same. -/
theorem widens_iff {x : Binary32} {y : Binary64} : x.Widens y ↔ y = x.widen := by
  have widens : x.Widens x.widen := by
    by_cases special : x.exponent = 0xFF
    · exact widens_of_special special
    by_cases subnormal : x.exponent = 0
    · exact widens_of_subnormal subnormal
    · exact widens_of_normal special subnormal
  constructor
  · intro h
    exact h.unique widens
  · intro same
    rwa [same]

/-- The largest subnormal number, and a signalling NaN with a sign. -/
example : widen ⟨0x007FFFFF⟩ = ⟨0x380FFFFFC0000000⟩ ∧
    widen ⟨0xFF800001⟩ = ⟨0xFFF8000020000000⟩ := by
  decide

end Binary32

end PackStream
