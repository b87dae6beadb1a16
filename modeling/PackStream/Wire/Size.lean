/-!
# Size classes and marker families

Strings, lists, dictionaries and structures carry their size in a header. The size class says how
wide the size is written: folded into the marker byte, or as one, two or four bytes after it. A
marker family is the set of marker bytes that one such category uses.
-/

set_option autoImplicit false

namespace PackStream

/-- How wide a size is written. -/
inductive SizeClass where
  /-- In the low four bits of the marker. -/
  | tiny (n : UInt8)
  | size8
  | size16
  | size32
  deriving DecidableEq, Inhabited

namespace SizeClass

/-- The largest size that fits into a marker. -/
def tinyMax : Nat := 15

/-- The narrowest class that holds a size, or `none` from `0x100000000` on. -/
def ofSize? (n : Nat) : Option SizeClass :=
  if n ≤ tinyMax then some (.tiny (UInt8.ofNat n))
  else if n < 0x100 then some .size8
  else if n < 0x10000 then some .size16
  else if n < 0x100000000 then some .size32
  else none

/-- How many bytes of size follow the marker. -/
def prefixWidth : SizeClass → Nat
  | .tiny _ => 0
  | .size8 => 1
  | .size16 => 2
  | .size32 => 4

end SizeClass

/-- The marker bytes of one sized category. -/
structure MarkerFamily where
  /-- The category's name in messages. -/
  name : String
  /-- The high four bits of the markers that hold the size themselves. -/
  tiny : UInt8
  size8 : UInt8
  size16 : UInt8
  /-- Absent where sizes end at 16 bits. -/
  size32 : Option UInt8
  deriving DecidableEq

namespace MarkerFamily

/-- Strings, whose size is a count of bytes. -/
def string : MarkerFamily := ⟨"string", 0x80, 0xD0, 0xD1, some 0xD2⟩

/-- Lists, whose size is a count of items. -/
def list : MarkerFamily := ⟨"list", 0x90, 0xD4, 0xD5, some 0xD6⟩

/-- Dictionaries, whose size is a count of entries. -/
def dict : MarkerFamily := ⟨"dict", 0xA0, 0xD8, 0xD9, some 0xDA⟩

/-- Structures, whose size is a count of fields and has no 32-bit form. -/
def struct : MarkerFamily := ⟨"structure", 0xB0, 0xDC, 0xDD, none⟩

/-- The marker of a size class, or `none` if the family lacks that class. -/
def marker? (f : MarkerFamily) : SizeClass → Option UInt8
  | .tiny n => some (f.tiny ||| (n &&& 0x0F))
  | .size8 => some f.size8
  | .size16 => some f.size16
  | .size32 => f.size32

/-- The largest size the family can announce. -/
def maxSize (f : MarkerFamily) : Nat :=
  if f.size32.isSome then 0xFFFFFFFF else 0xFFFF

/-- The size class that a marker byte of this family announces. -/
def classOf? (f : MarkerFamily) (byte : UInt8) : Option SizeClass :=
  if byte &&& 0xF0 = f.tiny then some (.tiny (byte &&& 0x0F))
  else if byte = f.size8 then some .size8
  else if byte = f.size16 then some .size16
  else if some byte = f.size32 then some .size32
  else none

end MarkerFamily

end PackStream
