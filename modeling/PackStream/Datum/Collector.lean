import PackStream.Datum.Basic
import PackStream.Encoding.Error
import PackStream.Value.Basic

/-!
# Collectors

A collector gathers what a sequence, a map or a record is made of, one call at a time. A call is
given what became of the part: its value or text, or the error that kept it from being converted.
A call that fails adds nothing, and the collector can go on after it.
-/

set_option autoImplicit false

namespace PackStream

/-- A value, under a tag if there is one. -/
def Value.underTag (tag : Option String) (content : Value) : Value :=
  match tag with
  | some key => .tagged key content
  | none => content

/-- Gathers the items of a list. -/
structure ListCollector where
  tag : Option String := none
  items : Array Value := #[]

/-- Gathers the entries of a dictionary. -/
structure DictCollector where
  tag : Option String := none
  dict : Dict := ∅
  /-- The key that waits for its value. -/
  pending : Option String := none

namespace ListCollector

/-- An empty collector for a sequence of a form. -/
def ofForm (form : SequenceForm) : ListCollector :=
  { tag := form.tag? }

/-- Adds an item. -/
def element (converted : Except EncodeError Value) : EStateM EncodeError ListCollector Unit
  | { tag, items } =>
    match converted with
    | .ok v => .ok () { tag, items := items.push v }
    | .error error => .error error { tag, items }

/-- The list of what has been gathered. -/
def finish (c : ListCollector) : Value :=
  .underTag c.tag (.list c.items.toList)

end ListCollector

namespace DictCollector

/-- An empty collector for a map. -/
def ofMap : DictCollector := {}

/-- An empty collector for a record of a form. -/
def ofForm (form : RecordForm) : DictCollector :=
  { tag := form.tag? }

/-- Remembers a key, in place of any other that still waits. -/
def key (converted : Except EncodeError String) : EStateM EncodeError DictCollector Unit
  | c =>
    match converted with
    | .ok k => .ok () { c with pending := some k }
    | .error error => .error error c

/-- Puts an entry in, replacing the one with the same key. -/
def field (name : String) (converted : Except EncodeError Value) :
    EStateM EncodeError DictCollector Unit
  | c =>
    match converted with
    | .ok v => .ok () { c with dict := c.dict.insert name v }
    | .error error => .error error c

/-- Puts the waiting key in with a value. The key is spent even if the value was not converted;
without a waiting key the call fails whatever the value. -/
def value (converted : Except EncodeError Value) : EStateM EncodeError DictCollector Unit
  | c =>
    match c.pending with
    | some k => field k converted { c with pending := none }
    | none => .error (.custom "map value serialized before its key") c

/-- The dictionary of what has been gathered. -/
def finish (c : DictCollector) : Value :=
  .underTag c.tag (.ofDict c.dict)

end DictCollector

end PackStream
