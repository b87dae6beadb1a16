import PackStream.Decoding.Cursor
import PackStream.Wire.Marker

/-!
# Reading values

A value is read off its marker byte. The standard format alone is read: sizes in full, a
structure's signature after its header. Dictionary keys are read as values of their own, and a key
that is no string or repeats an earlier one is refused before its value is looked at.

Nesting is bounded by the number of bytes left, since every value takes at least its marker.
-/

set_option autoImplicit false

namespace PackStream

namespace Reader

/-- Reads a size that its marker announced in a class. -/
def size (width : SizeClass) : Reader Nat := do
  need width.prefixWidth
  match width with
  | .tiny n => pure n.toNat
  | .size8 => return Bytes.ofBigEndian (← take 1)
  | .size16 => return Bytes.ofBigEndian (← take 2)
  | .size32 => return Bytes.ofBigEndian (← take 4)

/-- The integer that bytes stand for in two's complement, most significant byte first. -/
def ofTwosComplement (bs : Bytes) : Int64 :=
  Int64.ofInt ((Bytes.ofBigEndian bs : Int).bmod (Bytes.modulus bs.length))

/-- Reads the payload of an integer of a width. -/
def integer (width : IntWidth) : Reader Int64 := do
  need width.payloadWidth
  match width with
  | .tiny => throw (.fault .noPayload)
  | .int8 => return ofTwosComplement (← take 1)
  | .int16 => return ofTwosComplement (← take 2)
  | .int32 => return ofTwosComplement (← take 4)
  | .int64 => return ofTwosComplement (← take 8)

/-- Reads a float. -/
def float : Reader Binary64 := do
  need 8
  return ⟨UInt64.ofNat (Bytes.ofBigEndian (← take 8))⟩

/-- Reads a text of `n` bytes. The bytes are taken even if they are no text. -/
def text (n : Nat) : Reader String := do
  need n
  match Utf8.decode (← take n) with
  | .ok s => pure s
  | .error fault => refuse (.invalidUtf8 fault)

/-- Reads a dictionary key: a string that is not yet a key. -/
def key (read : Reader Value) (seen : Dict) : Reader String := do
  match ← read with
  | .string s => if seen.contains s then refuse (.duplicateKey s) else pure s
  | v => refuse (.nonStringKey v.kind)

/-- Reads `n` entries on top of those in `dict`. -/
def entries (read : Reader Value) : (n : Nat) → (dict : Dict) → Reader Dict
  | 0, dict => pure dict
  | n + 1, dict => do
    let k ← key read dict
    let v ← read
    entries read n (dict.insert k v)

/-- Reads a value in which values are nested less than `depth` deep. -/
def nested : (depth : Nat) → Reader Value
  | 0 => throw (.fault .tooDeep)
  | depth + 1 => do
    begin
    need 1
    let marker ← byte
    match Marker.ofByte marker with
    | .null => pure .null
    | .boolean b => pure (.boolean b)
    | .float => return .float (← float)
    | .tinyInt i => pure (.integer i.toInt64)
    | .int width => return .integer (← integer width)
    | .string width => return .string (← text (← size width))
    | .list width => return .list (← repeated (nested depth) (← size width) [])
    | .dict width => return .ofDict (← entries (nested depth) (← size width) ∅)
    | .struct width =>
      let n ← size width
      need 1
      let signature ← byte
      return .struct signature (← repeated (nested depth) n [])
    | .reserved =>
      report (.reservedMarker marker)
      refuse (.unknownMarker marker)

/-- Reads the next value. -/
def value : Reader Value := do
  nested ((← get).rest.length + 1)

/-- Reads a value and makes sure that nothing is left after it. -/
def wholeValue : Reader Value := do
  let v ← value
  let rest := (← get).rest
  if rest.isEmpty then pure v else refuse (.trailingBytes rest.length)

end Reader

/-- One attempt to read a value from a stream, with the cursor after it. -/
abbrev Attempt := EStateM.Result Stop Cursor Value

/-- Reads values one after the other, at most `calls` of them, until one fails or nothing is left.
-/
def Cursor.values : (calls : Nat) → Cursor → List Attempt
  | 0, _ => []
  | calls + 1, c =>
    match Reader.value c with
    | .ok v c => .ok v c :: if c.rest.isEmpty then [] else values calls c
    | .error stop c => [.error stop c]

end PackStream
