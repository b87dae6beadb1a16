import PackStream.Bytes
import PackStream.Number.Binary64

/-!
# Application data

A datum is a tree of application data as a program describes it to a writer: numbers of all widths,
optional data, sequences and tuples, maps given call by call, records with named fields, and the
cases of an enumeration, each under its tag. Names of types are not kept, since nothing depends on
them.
-/

set_option autoImplicit false

namespace PackStream

/-- How many bits an integer type has. -/
inductive IntBits where
  | bits8
  | bits16
  | bits32
  | bits64
  | bits128
  deriving DecidableEq

/-- The number of bits. -/
def IntBits.count : IntBits → Nat
  | .bits8 => 8
  | .bits16 => 16
  | .bits32 => 32
  | .bits64 => 64
  | .bits128 => 128

/-- An integer type. -/
inductive IntType where
  | signed (bits : IntBits)
  | unsigned (bits : IntBits)
  deriving DecidableEq

namespace IntType

/-- How many bits the type has. -/
def bits : IntType → IntBits
  | signed bits | unsigned bits => bits

/-- The name of the type, such as `i64`. -/
def name : IntType → String
  | signed bits => s!"i{bits.count}"
  | unsigned bits => s!"u{bits.count}"

/-- The integers that the type contains. -/
def Contains : IntType → Int → Prop
  | signed bits, x => -(1 <<< (bits.count - 1) : Nat) ≤ x ∧ x < (1 <<< (bits.count - 1) : Nat)
  | unsigned bits, x => 0 ≤ x ∧ x < (1 <<< bits.count : Nat)

instance (type : IntType) (x : Int) : Decidable (type.Contains x) :=
  match type with
  | signed _ => inferInstanceAs (Decidable (_ ∧ _))
  | unsigned _ => inferInstanceAs (Decidable (_ ∧ _))

end IntType

/-- How a run of items is presented. -/
inductive SequenceForm where
  /-- Any number of items. -/
  | plain
  /-- A fixed number of items. -/
  | tuple
  /-- A tuple that is a type of its own. -/
  | namedTuple
  /-- A tuple that is the content of a case. -/
  | tagged (tag : String)
  deriving DecidableEq

/-- The tag that the sequence stands under. -/
def SequenceForm.tag? : SequenceForm → Option String
  | tagged tag => some tag
  | _ => none

/-- How a group of named fields is presented. -/
inductive RecordForm where
  | plain
  /-- Fields that are the content of a case. -/
  | tagged (tag : String)
  deriving DecidableEq

/-- The tag that the fields stand under. -/
def RecordForm.tag? : RecordForm → Option String
  | tagged tag => some tag
  | plain => none

/-- One call in the description of a map. -/
inductive MapStep (α : Type) where
  | key (k : α)
  | value (v : α)
  /-- A key and then its value. -/
  | entry (k v : α)

/-- Application data. -/
inductive Datum where
  | boolean (b : Bool)
  | integer (type : IntType) (x : Int)
  | float32 (x : Binary32)
  | float64 (x : Binary64)
  | char (c : Char)
  | text (s : String)
  | bytes (bs : Bytes)
  /-- Optional data that is not there. -/
  | absent
  /-- Optional data that is there. -/
  | present (content : Datum)
  | unit
  /-- A type that only wraps another. -/
  | wrapped (content : Datum)
  /-- A case without content. -/
  | bareTag (tag : String)
  /-- A case with one datum as its content. -/
  | tagged (tag : String) (content : Datum)
  | sequence (form : SequenceForm) (items : List Datum)
  | map (steps : List (MapStep Datum))
  /-- Fields in order; one without content is skipped. -/
  | record (form : RecordForm) (fields : List (String × Option Datum))
  /-- Data that fails to describe itself. -/
  | failure (reason : String)

end PackStream
