import PackStream.Encoding.Error
import PackStream.Value.Basic

/-!
# Integers as values

A value holds integers of 64 bits with a sign. An integer of a machine type that lies within these
is widened. Of a word that may not fit, the number that it stands for is checked, and its low 64
bits are kept, or the word is refused.
-/

set_option autoImplicit false

namespace PackStream

/-- The greatest integer that a value holds. -/
def Value.maxInt : Int := 0x7FFFFFFFFFFFFFFF

/-- The least integer that a value holds. -/
def Value.minInt : Int := -0x8000000000000000

/-- The error for an integer that no value holds. -/
def EncodeError.overflow (x : Int) : EncodeError :=
  .integerOverflow x Value.maxInt

namespace Value

/-! ## Types that lie within 64 bits with a sign -/

/-- The value of an integer in two's complement of at most 64 bits. -/
def ofSigned {n : Nat} (w : BitVec n) : Value :=
  .integer (Int64.ofBitVec (w.signExtend 64))

/-- The value of an unsigned integer of fewer than 64 bits. -/
def ofUnsigned {n : Nat} (w : BitVec n) : Value :=
  .integer (Int64.ofBitVec (w.setWidth 64))

/-! ## Other types -/

/-- The value of a number whose low 64 bits are `low`, or an error in which the number is named as
`named`. -/
def ofLow (x : Int) (low : Int64) (named : Int) : Except EncodeError Value :=
  if minInt ≤ x ∧ x ≤ maxInt then .ok (.integer low) else .error (.overflow named)

/-- The value of an unsigned integer of 64 bits. -/
def ofUInt64 (n : UInt64) : Except EncodeError Value :=
  ofLow n.toNat n.toInt64 n.toNat

/-- The value of an unsigned integer as wide as an address, which is at most 64 bits. -/
def ofUSize (n : USize) : Except EncodeError Value :=
  ofUInt64 n.toUInt64

/-- The value of an integer of 128 bits in two's complement. -/
def ofInt128 (w : BitVec 128) : Except EncodeError Value :=
  ofLow w.toInt (Int64.ofBitVec (w.setWidth 64)) w.toInt

/-- The value of an unsigned integer of 128 bits. Errors name integers of 128 bits with a sign, so
the greatest of them stands for what is above it. -/
def ofUInt128 (w : BitVec 128) : Except EncodeError Value :=
  ofLow w.toNat (Int64.ofBitVec (w.setWidth 64))
    (if w.toNat < 0x80000000000000000000000000000000 then w.toNat
      else 0x7FFFFFFFFFFFFFFFFFFFFFFFFFFFFFFF)

end Value

end PackStream
