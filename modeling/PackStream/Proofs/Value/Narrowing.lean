import PackStream.Datum.Conversion

/-!
# Integers of all types are narrowed alike

Whatever the type of an integer, its value is the integer itself if it lies within 64 bits with a
sign, and otherwise the integer is named in an error. The types that lie within these bits, those
that reach beyond and the words of 128 bits are converted in different ways, so that this is
something to prove for each way.

Main statement: `Datum.narrows_integerValue`.
-/

set_option autoImplicit false

namespace PackStream

namespace Value

/-- What an integer comes to as a value: the integer itself within 64 bits, and otherwise an error
that names it, or the greatest integer of 128 bits for any larger one. -/
structure Narrows (x : Int) (r : Except EncodeError Value) : Prop where
  ok (fits : -0x8000000000000000 ≤ x ∧ x ≤ 0x7FFFFFFFFFFFFFFF) :
    ∃ i : Int64, i.toInt = x ∧ r = .ok (.integer i)
  error (beyond : x < -0x8000000000000000 ∨ 0x7FFFFFFFFFFFFFFF < x) :
    r = .error (.integerOverflow (min x 0x7FFFFFFFFFFFFFFFFFFFFFFFFFFFFFFF) 0x7FFFFFFFFFFFFFFF)

theorem Narrows.eq_ok {x : Int} {i : Int64} {r : Except EncodeError Value} (h : Narrows x r)
    (same : i.toInt = x) : r = .ok (.integer i) := by
  have lo := i.le_toInt
  have hi := i.toInt_lt
  obtain ⟨j, held, result⟩ := h.ok (by omega)
  rw [result, Int64.toInt_inj.1 (held.trans same.symm)]

/-! ## Types that lie within 64 bits with a sign -/

/-- An integer that is held in 64 bits is the value of its own number. -/
theorem narrows_integer {x : Int} {i : Int64} (same : i.toInt = x) :
    Narrows x (.ok (.integer i)) := by
  refine ⟨fun _ => ⟨i, same, rfl⟩, ?_⟩
  intro beyond
  have lo := i.le_toInt
  have hi := i.toInt_lt
  omega

theorem narrows_ofSigned {n : Nat} {w : BitVec n} {x : Int} (short : n ≤ 64)
    (same : w.toInt = x) : Narrows x (.ok (ofSigned w)) :=
  narrows_integer ((BitVec.toInt_signExtend_of_le short).trans same)

theorem narrows_ofUnsigned {n : Nat} {w : BitVec n} {x : Int} (short : n < 64)
    (same : (w.toNat : Int) = x) : Narrows x (.ok (ofUnsigned w)) := by
  have number : (w.setWidth 64).toNat = w.toNat := BitVec.toNat_setWidth_of_le (Nat.le_of_lt short)
  have small : w.toNat < 2 ^ 63 :=
    Nat.lt_of_lt_of_le w.isLt (Nat.pow_le_pow_right Nat.two_pos (Nat.le_of_lt_succ short))
  refine narrows_integer ?_
  rw [Int64.toInt_ofBitVec, BitVec.toInt_eq_toNat_of_lt (by omega), number, same]

/-! ## Words cut to 64 bits -/

/-- Integers that agree on the low 64 bits are the same if both lie within 64 bits. -/
theorem toInt_eq_of_bmod {i : Int64} {x : Int} (low : i.toInt = x.bmod Int64.size)
    (fits : -0x8000000000000000 ≤ x ∧ x ≤ 0x7FFFFFFFFFFFFFFF) : i.toInt = x := by
  obtain ⟨lo, hi⟩ := fits
  have size : (Int64.size : Int) = 0x10000000000000000 := rfl
  rw [low]
  exact Int.bmod_eq_of_le (by omega) (by omega)

theorem toInt_toInt64 (n : UInt64) : n.toInt64.toInt = (n.toNat : Int).bmod Int64.size :=
  BitVec.toInt_eq_toNat_bmod n.toBitVec

theorem toInt_setWidth_toNat (w : BitVec 128) :
    (Int64.ofBitVec (w.setWidth 64)).toInt = (w.toNat : Int).bmod Int64.size :=
  BitVec.toInt_setWidth w

/-- The low 64 bits are the same for a word read with a sign and without. -/
theorem toInt_setWidth_toInt (w : BitVec 128) :
    (Int64.ofBitVec (w.setWidth 64)).toInt = w.toInt.bmod Int64.size := by
  have divides : Int64.size ∣ 0x100000000000000000000000000000000 := ⟨Int64.size, by decide⟩
  rw [toInt_setWidth_toNat, BitVec.toInt_eq_toNat_bmod, Int.bmod_bmod_of_dvd divides]

/-- A word is narrowed as its number is if its low bits are those of the number, and the number, if
it is too large, is named as it should be. -/
theorem narrows_ofLow {x named : Int} {low : Int64} (bits : low.toInt = x.bmod Int64.size)
    (name : min x 0x7FFFFFFFFFFFFFFFFFFFFFFFFFFFFFFF = named) : Narrows x (ofLow x low named) := by
  constructor
  · intro fits
    exact ⟨low, toInt_eq_of_bmod bits fits, if_pos fits⟩
  · intro beyond
    have outside : ¬ (minInt ≤ x ∧ x ≤ maxInt) := by
      simp only [minInt, maxInt]
      omega
    rw [ofLow, if_neg outside, name]
    rfl

theorem eq_integer_of_ofLow {x named : Int} {low : Int64} {v : Value}
    (h : ofLow x low named = .ok v) : v = .integer low := by
  rw [ofLow] at h
  split at h
  · cases h
    rfl
  · cases h

theorem narrows_ofUInt64 {n : UInt64} {x : Int} (same : (n.toNat : Int) = x) :
    Narrows x (ofUInt64 n) := by
  have lt := n.toNat_lt
  subst same
  exact narrows_ofLow (toInt_toInt64 n) (by omega)

theorem narrows_ofUSize {n : USize} {x : Int} (same : (n.toNat : Int) = x) :
    Narrows x (ofUSize n) := by
  rw [← USize.toNat_toUInt64] at same
  exact narrows_ofUInt64 same

theorem narrows_ofInt128 {w : BitVec 128} {x : Int} (same : w.toInt = x) :
    Narrows x (ofInt128 w) := by
  have lt := w.toInt_lt
  subst same
  exact narrows_ofLow (toInt_setWidth_toInt w) (by omega)

theorem narrows_ofUInt128 {w : BitVec 128} {x : Int} (same : (w.toNat : Int) = x) :
    Narrows x (ofUInt128 w) := by
  subst same
  refine narrows_ofLow (toInt_setWidth_toNat w) ?_
  split <;> omega

end Value

/-! ## Integers of application data -/

theorem IntBits.count_pos (bits : IntBits) : 0 < bits.count := by
  cases bits <;> exact Nat.succ_pos _

/-- The word of an integer of a signed type stands for the integer. -/
theorem IntType.toInt_ofInt_of_contains {bits : IntBits} {x : Int}
    (contains : (signed bits).Contains x) : (BitVec.ofInt bits.count x).toInt = x := by
  obtain ⟨lo, hi⟩ := contains
  simp only [Nat.one_shiftLeft, Int.natCast_pow, Int.cast_ofNat_Int] at lo hi
  exact BitVec.toInt_ofInt_eq_self bits.count_pos lo hi

/-- The word of an integer of an unsigned type stands for the integer. -/
theorem IntType.toNat_ofInt_of_contains {bits : IntBits} {x : Int}
    (contains : (unsigned bits).Contains x) : ((BitVec.ofInt bits.count x).toNat : Int) = x := by
  obtain ⟨lo, hi⟩ := contains
  rw [Nat.one_shiftLeft] at hi
  rw [BitVec.toNat_ofInt, Int.emod_eq_of_lt lo hi, Int.toNat_of_nonneg lo]

namespace Datum

/-- An integer of any type is narrowed alike. -/
theorem narrows_integerValue {type : IntType} {x : Int} (contains : type.Contains x) :
    Value.Narrows x (integerValue type x) := by
  cases type with
  | signed bits =>
    have word := IntType.toInt_ofInt_of_contains contains
    cases bits with
    | bits8 | bits16 | bits32 => exact Value.narrows_ofSigned (by decide) word
    | bits64 => exact Value.narrows_integer word
    | bits128 => exact Value.narrows_ofInt128 word
  | unsigned bits =>
    have word := IntType.toNat_ofInt_of_contains contains
    cases bits with
    | bits8 | bits16 | bits32 => exact Value.narrows_ofUnsigned (by decide) word
    | bits64 => exact Value.narrows_ofUInt64 word
    | bits128 => exact Value.narrows_ofUInt128 word

/-- What an integer comes to is an integer, also if its type does not contain it. -/
theorem integerValue_eq_integer {type : IntType} {x : Int} {v : Value}
    (h : integerValue type x = .ok v) : ∃ i : Int64, v = .integer i := by
  fun_cases integerValue type x with
  | case5 | case9 | case10 => exact ⟨_, Value.eq_integer_of_ofLow h⟩
  | _ =>
    cases h
    exact ⟨_, rfl⟩

end Datum

end PackStream
