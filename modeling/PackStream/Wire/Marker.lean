import PackStream.Wire.Size

/-!
# Marker bytes

Every value starts with a marker byte that announces what follows. `Marker.ofByte` reads the
whole table: small integers are their own marker, scalars and wide integers have one byte each,
and the sized categories take their bytes from the four marker families. What is left over is
reserved.
-/

set_option autoImplicit false

namespace PackStream

/-- How wide an integer is written. -/
inductive IntWidth where
  /-- The marker byte itself. -/
  | tiny
  | int8
  | int16
  | int32
  | int64
  deriving DecidableEq, Inhabited

namespace IntWidth

/-- The least integer that is its own marker. -/
def tinyMin : Int := -16

/-- The greatest integer that is its own marker. -/
def tinyMax : Int := 127

/-- The narrowest width that holds an integer. -/
def ofInt (i : Int) : IntWidth :=
  if tinyMin ≤ i ∧ i ≤ tinyMax then .tiny
  else if -0x80 ≤ i ∧ i < 0x80 then .int8
  else if -0x8000 ≤ i ∧ i < 0x8000 then .int16
  else if -0x80000000 ≤ i ∧ i < 0x80000000 then .int32
  else .int64

/-- The marker byte, which tiny integers do without. -/
def marker? : IntWidth → Option UInt8
  | .tiny => none
  | .int8 => some 0xC8
  | .int16 => some 0xC9
  | .int32 => some 0xCA
  | .int64 => some 0xCB

/-- The width that a marker byte announces. -/
def ofMarker? (byte : UInt8) : Option IntWidth :=
  [int8, int16, int32, int64].find? (·.marker? == some byte)

/-- How many bytes follow the marker. -/
def payloadWidth : IntWidth → Nat
  | .tiny => 0
  | .int8 => 1
  | .int16 => 2
  | .int32 => 4
  | .int64 => 8

end IntWidth

/-- What a leading byte announces. -/
inductive Marker where
  | null
  | boolean (b : Bool)
  | float
  | tinyInt (i : Int8)
  | int (width : IntWidth)
  | string (size : SizeClass)
  | list (size : SizeClass)
  | dict (size : SizeClass)
  | struct (size : SizeClass)
  /-- Assigned to nothing. -/
  | reserved
  deriving DecidableEq

namespace Marker

/-- The revision of the marker table. -/
def tableVersion : UInt8 := 1

/-- Announces the null value, which is complete with it. -/
def nullByte : UInt8 := 0xC0

/-- Announces a float, whose bit pattern follows in eight bytes. -/
def floatByte : UInt8 := 0xC1

/-- Announces the truth value false, which is complete with it. -/
def falseByte : UInt8 := 0xC2

/-- Announces the truth value true, which is complete with it. -/
def trueByte : UInt8 := 0xC3

/-- What a byte announces at the start of a value. -/
def ofByte (byte : UInt8) : Marker :=
  if byte < 0x80 || 0xF0 ≤ byte then .tinyInt byte.toInt8
  else if byte = nullByte then .null
  else if byte = falseByte then .boolean false
  else if byte = trueByte then .boolean true
  else if byte = floatByte then .float
  else if let some width := IntWidth.ofMarker? byte then .int width
  else if let some size := MarkerFamily.string.classOf? byte then .string size
  else if let some size := MarkerFamily.list.classOf? byte then .list size
  else if let some size := MarkerFamily.dict.classOf? byte then .dict size
  else if let some size := MarkerFamily.struct.classOf? byte then .struct size
  else .reserved

end Marker

end PackStream
