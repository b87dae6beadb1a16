import PackStream.Encoding.Error
import PackStream.Event
import PackStream.Text.Utf8
import PackStream.Value.Basic
import PackStream.Wire.Marker
import PackStream.Wire.Options

/-!
# Encoding scripts

What a value's encoding consists of, before any sink is involved: a script of byte strings to be
written one after the other, with notices of lost lengths where they are lost, and a refusal
where the encoding cannot go on. Steps after a refusal are never reached.

Main statement: `toList_value`, a value adds its steps at the end and does not look at those before
it.
-/

set_option autoImplicit false

namespace PackStream

/-- One step of an encoding. -/
inductive Step where
  /-- Hand bytes to the sink in one piece. -/
  | write (bytes : Bytes)
  | notice (event : Event)
  | refuse (error : EncodeError)

/-- The steps of an encoding in order. -/
abbrev Script := Array Step

namespace Script

/-- Adds the writing of bytes in one piece. -/
def write (script : Script) (bytes : Bytes) : Script :=
  script.push (.write bytes)

/-- Adds a notice. -/
def notice (script : Script) (event : Event) : Script :=
  script.push (.notice event)

/-- Adds a refusal. -/
def refuse (script : Script) (error : EncodeError) : Script :=
  script.push (.refuse error)

/-- Adds the header of a category with a size: the marker of the narrowest class that holds the
size, and the size in the width of that class. In low-byte form the wider classes lose all but the
low byte of the size, which is noticed first. -/
def header (script : Script) (options : Options) (family : MarkerFamily) (size : Nat) : Script :=
  match SizeClass.ofSize? size with
  | none => script.refuse (.lengthOverflow family.name size family.maxSize)
  | some width =>
    match family.marker? width with
    | none => script.refuse (.lengthOverflow family.name size family.maxSize)
    | some marker =>
      match width, options.lengths with
      | .tiny _, _ => script.write [marker]
      | .size8, _ | .size16, .full | .size32, .full =>
        script.write (marker :: Bytes.bigEndian width.prefixWidth size)
      | .size16, .lowByte | .size32, .lowByte =>
        let written := UInt8.ofNat size
        (script.notice (.lengthTruncated family.name size written)).write [marker, written]

/-- Adds an integer in the narrowest width that holds it. -/
def integer (script : Script) (i : Int64) : Script :=
  let width := IntWidth.ofInt i.toInt
  let word := i.toUInt64.toNat
  match width.marker? with
  | none => script.write (Bytes.bigEndian 1 word)
  | some marker =>
    (script.write [marker]).write (Bytes.bigEndian width.payloadWidth word)

/-- Adds a float as its bit pattern. -/
def float (script : Script) (x : Binary64) : Script :=
  (script.write [Marker.floatByte]).write (Bytes.bigEndian 8 x.bits.toNat)

/-- Adds a string, whose size is its length in bytes. -/
def string (script : Script) (options : Options) (s : String) : Script :=
  (script.header options .string s.utf8ByteSize).write (Utf8.encode s)

/-- Adds the header and the signature of a structure in the order that the options ask for. -/
def structHeader (script : Script) (options : Options) (signature : UInt8) (size : Nat) : Script :=
  match options.signature with
  | .afterHeader => (script.header options .struct size).write [signature]
  | .beforeHeader => (script.write [signature]).header options .struct size

/-- The limit, where the options allow no further nesting inside `depth` open aggregates. -/
def depthExceeded? (options : Options) (depth : Nat) : Option Nat :=
  options.depthLimit.filter (· ≤ depth)

mutual

/-- Adds a value that stands inside `depth` open aggregates. -/
def value (options : Options) (depth : Nat) : Value → Script → Script
  | .null, script => script.write [Marker.nullByte]
  | .boolean b, script => script.write [if b then Marker.trueByte else Marker.falseByte]
  | .integer i, script => script.integer i
  | .float x, script => script.float x
  | .string s, script => script.string options s
  | .list vs, script =>
    let script := script.header options .list vs.length
    match depthExceeded? options depth with
    | some limit => script.refuse (.nestingTooDeep limit)
    | none => items options (depth + 1) vs script
  | .dict es, script =>
    let script := script.header options .dict es.length
    match depthExceeded? options depth with
    | some limit => script.refuse (.nestingTooDeep limit)
    | none => entries options (depth + 1) es script
  | .struct signature vs, script =>
    let script := script.structHeader options signature vs.length
    match depthExceeded? options depth with
    | some limit => script.refuse (.nestingTooDeep limit)
    | none => items options (depth + 1) vs script

/-- Adds values one after the other. -/
def items (options : Options) (depth : Nat) : List Value → Script → Script
  | [], script => script
  | v :: vs, script => items options depth vs (value options depth v script)

/-- Adds entries one after the other, each key before its value. -/
def entries (options : Options) (depth : Nat) : List (String × Value) → Script → Script
  | [], script => script
  | (k, v) :: es, script =>
    entries options depth es (value options depth v (script.string options k))

end

/-! ## What is added stands at the end -/

theorem toList_header (script : Script) (options : Options) (family : MarkerFamily) (size : Nat) :
    (script.header options family size).toList =
      script.toList ++ (header #[] options family size).toList := by
  unfold header
  cases SizeClass.ofSize? size with
  | none => simp [refuse]
  | some width =>
    dsimp only
    cases family.marker? width with
    | none => simp [refuse]
    | some marker => cases width <;> cases options.lengths <;> simp [write, notice]

theorem toList_string (script : Script) (options : Options) (s : String) :
    (script.string options s).toList = script.toList ++ (string #[] options s).toList := by
  simp only [string, write, Array.toList_push]
  rw [toList_header, List.append_assoc]

theorem toList_structHeader (script : Script) (options : Options) (signature : UInt8)
    (size : Nat) :
    (script.structHeader options signature size).toList =
      script.toList ++ (structHeader #[] options signature size).toList := by
  unfold structHeader
  cases options.signature with
  | afterHeader =>
    simp only [write, Array.toList_push]
    rw [toList_header, List.append_assoc]
  | beforeHeader =>
    simp only [write]
    rw [toList_header, toList_header (Array.push #[] _)]
    simp

mutual

theorem toList_value (options : Options) (depth : Nat) (v : Value) (script : Script) :
    (value options depth v script).toList =
      script.toList ++ (value options depth v #[]).toList := by
  cases v with
  | null | boolean => simp [value, write]
  | integer i =>
    simp only [value, integer]
    cases (IntWidth.ofInt i.toInt).marker? <;> simp [write]
  | float x => simp [value, float, write]
  | string s => exact toList_string script options s
  | list vs =>
    simp only [value]
    cases depthExceeded? options depth with
    | some limit =>
      simp only [refuse, Array.toList_push]
      rw [toList_header, List.append_assoc]
    | none =>
      dsimp only
      rw [toList_items, toList_header, toList_items options _ vs (header _ _ _ _),
        List.append_assoc]
  | dict es =>
    simp only [value]
    cases depthExceeded? options depth with
    | some limit =>
      simp only [refuse, Array.toList_push]
      rw [toList_header, List.append_assoc]
    | none =>
      dsimp only
      rw [toList_entries, toList_header, toList_entries options _ es (header _ _ _ _),
        List.append_assoc]
  | struct signature vs =>
    simp only [value]
    cases depthExceeded? options depth with
    | some limit =>
      simp only [refuse, Array.toList_push]
      rw [toList_structHeader, List.append_assoc]
    | none =>
      dsimp only
      rw [toList_items, toList_structHeader, toList_items options _ vs (structHeader _ _ _ _),
        List.append_assoc]

theorem toList_items (options : Options) (depth : Nat) (vs : List Value) (script : Script) :
    (items options depth vs script).toList =
      script.toList ++ (items options depth vs #[]).toList := by
  cases vs with
  | nil => simp [items]
  | cons v vs =>
    simp only [items]
    rw [toList_items, toList_value, toList_items options depth vs (value options depth v #[]),
      List.append_assoc]

theorem toList_entries (options : Options) (depth : Nat) (es : List (String × Value))
    (script : Script) :
    (entries options depth es script).toList =
      script.toList ++ (entries options depth es #[]).toList := by
  match es with
  | [] => simp [entries]
  | (k, v) :: es =>
    simp only [entries]
    rw [toList_entries, toList_value, toList_string,
      toList_entries options depth es (value options depth v _),
      toList_value options depth v (string _ _ _)]
    simp only [List.append_assoc]

end

end Script

end PackStream
