import PackStream.Number.Shortest
import PackStream.Text.Hex
import PackStream.Value.Basic

/-!
# The text of a value

A one-line text for people: items in brackets, entries in braces, structures with their
signature. Strings stand between quotes as they are, without escapes.
-/

set_option autoImplicit false

namespace PackStream

mutual

/-- Appends the text of a value to a text. -/
def Value.appendText : Value → String → String
  | .null, s => s ++ "null"
  | .boolean b, s => s ++ (if b then "true" else "false")
  | .integer i, s => s ++ toString i.toInt
  | .float x, s => s ++ x.text
  | .string t, s => s ++ "\"" ++ t ++ "\""
  | .list items, s => appendItems items "" (s ++ "[") ++ "]"
  | .dict entries, s => appendEntries entries "" (s ++ "\x7b") ++ "\x7d"
  | .struct signature fields, s =>
    appendItems fields "" (s ++ "struct<0x" ++ hexByte signature ++ ">(") ++ ")"

/-- Appends the texts of items, the first after `separator` and each other after a comma. -/
def Value.appendItems : List Value → (separator : String) → String → String
  | [], _, s => s
  | v :: vs, separator, s => appendItems vs ", " (v.appendText (s ++ separator))

/-- Appends the texts of entries, the first after `separator` and each other after a comma. -/
def Value.appendEntries : List (String × Value) → (separator : String) → String → String
  | [], _, s => s
  | (k, v) :: es, separator, s =>
    appendEntries es ", " (v.appendText (s ++ separator ++ k ++ ": "))

end

/-- The text of a value. -/
def Value.text (v : Value) : String :=
  v.appendText ""

end PackStream
