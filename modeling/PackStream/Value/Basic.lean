import Std.Data.TreeMap.Basic
import PackStream.Number.Binary64

/-!
# Values

The closed set of shapes that the format carries. A dictionary value holds its entries in order
of their keys, each key once; `Dict` is the map that such entries are gathered in, and
`Value.ofDict` lists it. Anything with a signature and fields is a `Record` and can be written as
a structure.
-/

set_option autoImplicit false

namespace PackStream

/-- A value. -/
inductive Value where
  | null
  | boolean (b : Bool)
  | integer (i : Int64)
  | float (x : Binary64)
  | string (s : String)
  | list (items : List Value)
  /-- Entries in strictly increasing order of their keys. -/
  | dict (entries : List (String × Value))
  | struct (signature : UInt8) (fields : List Value)
  deriving Inhabited

/-- The category of a value. -/
inductive Kind where
  | null
  | boolean
  | integer
  | float
  | string
  | list
  | dict
  | struct
  deriving DecidableEq

/-- The category's name in messages. -/
def Kind.name : Kind → String
  | .null => "null"
  | .boolean => "boolean"
  | .integer => "integer"
  | .float => "float"
  | .string => "string"
  | .list => "list"
  | .dict => "dict"
  | .struct => "structure"

/-- A dictionary under construction: the last entry put in under a key counts, and listing it
gives the keys in order. -/
abbrev Dict := Std.TreeMap String Value

namespace Value

/-- The category a value belongs to. -/
def kind : Value → Kind
  | null => .null
  | boolean _ => .boolean
  | integer _ => .integer
  | float _ => .float
  | string _ => .string
  | list _ => .list
  | dict _ => .dict
  | struct _ _ => .struct

/-- The text of a string value. -/
def string? : Value → Option String
  | string s => some s
  | _ => none

/-- The number of an integer value. -/
def integer? : Value → Option Int64
  | integer i => some i
  | _ => none

/-- Whether a value is the null value. -/
def isNull : Value → Bool
  | null => true
  | _ => false

/-- The dictionary value with the entries of a map. -/
def ofDict (d : Dict) : Value :=
  .dict d.toList

/-- The dictionary value with one entry. -/
def tagged (key : String) (content : Value) : Value :=
  .dict [(key, content)]

end Value

/-- Anything that is written as a structure: a one-byte signature that tells its type, and its
fields in order. -/
class Record (α : Type) where
  signature : α → UInt8
  fields : α → List Value

/-- A record held as plain data. -/
structure Structure where
  signature : UInt8
  fields : List Value

namespace Structure

instance : Record Structure where
  signature := Structure.signature
  fields := Structure.fields

/-- The plain data of any record. -/
def ofRecord {α : Type} [Record α] (record : α) : Structure :=
  ⟨Record.signature record, Record.fields record⟩

/-- A structure as a value. -/
def toValue (s : Structure) : Value :=
  .struct s.signature s.fields

@[simp] theorem ofRecord_self (s : Structure) : ofRecord s = s := rfl

end Structure

end PackStream
