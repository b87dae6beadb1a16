/-!
# Binary interchange formats

A floating-point number is kept as its bit pattern, so that the payload of a NaN and the sign of
a zero survive every operation that does not look at them. `Binary64.numericEq` is the numeric
comparison of IEEE 754: a NaN differs from everything, itself included, and the two zeros are
equal. `Binary32.widen` is the exact conversion from the 32-bit format.
-/

set_option autoImplicit false

namespace PackStream

/-- A 64-bit floating-point number, as its bit pattern. -/
structure Binary64 where
  bits : UInt64
  deriving DecidableEq, Inhabited

/-- A 32-bit floating-point number, as its bit pattern. -/
structure Binary32 where
  bits : UInt32
  deriving DecidableEq, Inhabited

namespace Binary64

/-- The pattern with the given sign, biased exponent and fraction. -/
def ofFields (negative : Bool) (exponent fraction : Nat) : Binary64 :=
  ⟨UInt64.ofNat ((if negative then 1 <<< 63 else 0) + exponent <<< 52 + fraction)⟩

/-- Whether the sign bit is set. -/
def negative (x : Binary64) : Bool :=
  decide (1 <<< 63 ≤ x.bits.toNat)

/-- The eleven bits of the biased exponent. -/
def exponent (x : Binary64) : Nat :=
  x.bits.toNat >>> 52 % 1 <<< 11

/-- The low fifty-two bits. -/
def fraction (x : Binary64) : Nat :=
  x.bits.toNat % 1 <<< 52

/-- The biased exponent of the infinities and of every NaN. -/
def maxExponent : Nat := 2047

/-- A pattern that stands for no number. -/
def isNaN (x : Binary64) : Bool :=
  x.exponent == maxExponent && x.fraction != 0

/-- A zero of either sign. -/
def isZero (x : Binary64) : Bool :=
  x.exponent == 0 && x.fraction == 0

/-- Numeric equality: a NaN equals nothing, and the two zeros are equal. -/
def numericEq (x y : Binary64) : Bool :=
  !x.isNaN && !y.isNaN && (x == y || x.isZero && y.isZero)

/-- Exactly the patterns that stand for a number equal themselves. -/
@[simp] theorem numericEq_self (x : Binary64) : x.numericEq x = !x.isNaN := by
  simp [numericEq]

theorem numericEq_comm (x y : Binary64) : x.numericEq y = y.numericEq x := by
  simp only [numericEq, BEq.comm (a := x), Bool.and_comm x.isZero, Bool.and_comm (!x.isNaN)]

end Binary64

namespace Binary32

/-- Whether the sign bit is set. -/
def negative (x : Binary32) : Bool :=
  decide (1 <<< 31 ≤ x.bits.toNat)

/-- The eight bits of the biased exponent. -/
def exponent (x : Binary32) : Nat :=
  x.bits.toNat >>> 23 % 1 <<< 8

/-- The low twenty-three bits. -/
def fraction (x : Binary32) : Nat :=
  x.bits.toNat % 1 <<< 23

/-- The biased exponent of the infinities and of every NaN. -/
def maxExponent : Nat := 255

/-- The exact conversion to 64 bits. A NaN keeps its sign and payload and becomes quiet. -/
def widen (x : Binary32) : Binary64 :=
  if x.exponent = maxExponent then
    let shifted := x.fraction <<< 29
    let quiet := if x.fraction = 0 ∨ 1 <<< 22 ≤ x.fraction then shifted else 1 <<< 51 + shifted
    .ofFields x.negative Binary64.maxExponent quiet
  else if x.exponent ≠ 0 then
    .ofFields x.negative (x.exponent + 896) (x.fraction <<< 29)
  else if x.fraction = 0 then
    .ofFields x.negative 0 0
  else
    -- A subnormal is `fraction * 2 ^ (-149)`; its leading bit becomes the implicit one.
    let lead := x.fraction.log2
    .ofFields x.negative (lead + 874) ((x.fraction - 1 <<< lead) <<< (52 - lead))

end Binary32

end PackStream
