import PackStream.Datum.Basic
import PackStream.Encoding.Error

/-!
# Data in key position

Dictionary keys are strings, so only data that is text by itself can stand in key position:
strings, characters, bare tags, and wrappers around any of these.
-/

set_option autoImplicit false

namespace PackStream.Datum

/-- The name under which data that is no text is refused as a key. -/
def keyCategory : Datum → String
  | boolean _ => "boolean"
  | integer _ _ => "integer"
  | float32 _ | float64 _ => "float"
  | char _ | text _ => "string"
  | bytes _ => "byte array"
  | absent | unit => "null"
  | present _ => "option"
  | wrapped content => content.keyCategory
  | bareTag _ | tagged _ _ => "enum variant"
  | sequence (.tagged _) _ => "enum variant"
  | sequence _ _ => "list"
  | map _ => "dict"
  | record (.tagged _) _ => "enum variant"
  | record .plain _ => "dict"
  | failure _ => "failure"

/-- The error for data that is no text in key position. -/
def unusableKey (category : String) : EncodeError :=
  .unsupportedType s!"map key of type {category}"

/-- The text of data in key position. Integers of 128 bits are refused in words of their own. -/
def keyText : Datum → Except EncodeError String
  | text s => .ok s
  | char c => .ok (String.singleton c)
  | bareTag tag => .ok tag
  | wrapped content => content.keyText
  | integer type _ =>
    if type.bits = .bits128 then .error (.custom s!"{type.name} is not supported")
    else .error (unusableKey "integer")
  | failure reason => .error (.custom reason)
  | d => .error (unusableKey d.keyCategory)

end PackStream.Datum
