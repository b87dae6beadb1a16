import PackStream.Datum.Collector
import PackStream.Datum.Key
import PackStream.Encoding.Encoder
import PackStream.Value.Narrowing

/-!
# Application data as values

Every datum has at most one counterpart among the values. Numbers keep their number, text and
bare tags become strings, absent data and units become null, wrappers become their content,
sequences and tuples become lists, maps and records become dictionaries, and what stands under a
tag becomes a dictionary of one entry. Byte arrays have no counterpart. The first part that cannot
be converted stops the conversion.
-/

set_option autoImplicit false

namespace PackStream

namespace Datum

/-- The value of an integer of a type, by the conversion for words of that type. -/
def integerValue : IntType → Int → Except EncodeError Value
  | .signed .bits8, x => .ok (.ofSigned (BitVec.ofInt 8 x))
  | .signed .bits16, x => .ok (.ofSigned (BitVec.ofInt 16 x))
  | .signed .bits32, x => .ok (.ofSigned (BitVec.ofInt 32 x))
  | .signed .bits64, x => .ok (.integer (Int64.ofInt x))
  | .signed .bits128, x => Value.ofInt128 (BitVec.ofInt 128 x)
  | .unsigned .bits8, x => .ok (.ofUnsigned (BitVec.ofInt 8 x))
  | .unsigned .bits16, x => .ok (.ofUnsigned (BitVec.ofInt 16 x))
  | .unsigned .bits32, x => .ok (.ofUnsigned (BitVec.ofInt 32 x))
  | .unsigned .bits64, x => Value.ofUInt64 ⟨BitVec.ofInt 64 x⟩
  | .unsigned .bits128, x => Value.ofUInt128 (BitVec.ofInt 128 x)

mutual

/-- The value of a datum. -/
def toValue : Datum → Except EncodeError Value
  | .boolean b => .ok (.boolean b)
  | .integer type x => integerValue type x
  | .float32 x => .ok (.float x.widen)
  | .float64 x => .ok (.float x)
  | .char c => .ok (.string (String.singleton c))
  | .text s => .ok (.string s)
  | .bytes _ => .error (.unsupportedType "byte array")
  | .absent => .ok .null
  | .present content => content.toValue
  | .unit => .ok .null
  | .wrapped content => content.toValue
  | .bareTag tag => .ok (.string tag)
  | .tagged tag content => content.toValue.map (.tagged tag)
  | .sequence form items =>
    match collectItems items (.ofForm form) with
    | .ok _ c => .ok c.finish
    | .error error _ => .error error
  | .map steps =>
    match collectSteps steps .ofMap with
    | .ok _ c => .ok c.finish
    | .error error _ => .error error
  | .record form fields =>
    match collectFields fields (.ofForm form) with
    | .ok _ c => .ok c.finish
    | .error error _ => .error error
  | .failure reason => .error (.custom reason)

/-- Gathers items up to the first that has no value. -/
def collectItems : List Datum → EStateM EncodeError ListCollector Unit
  | [] => pure ()
  | d :: ds => do
    ListCollector.element d.toValue
    collectItems ds

/-- Gathers the calls of a map up to the first that fails. -/
def collectSteps : List (MapStep Datum) → EStateM EncodeError DictCollector Unit
  | [] => pure ()
  | .key k :: steps => do
    DictCollector.key k.keyText
    collectSteps steps
  | .value v :: steps => do
    DictCollector.value v.toValue
    collectSteps steps
  | .entry k v :: steps => do
    DictCollector.key k.keyText
    DictCollector.value v.toValue
    collectSteps steps

/-- Gathers fields up to the first that has no value. -/
def collectFields : List (String × Option Datum) → EStateM EncodeError DictCollector Unit
  | [] => pure ()
  | (_, none) :: fields => collectFields fields
  | (name, some d) :: fields => do
    DictCollector.field name d.toValue
    collectFields fields

end

/-- Converts a datum and writes it to a sink, which stays untouched if the conversion fails. -/
def writeTo {σ : Type} [Writer σ] (sink : σ) (d : Datum) :
    EStateM.Result EncodeError (Encoder σ) Unit :=
  match d.toValue with
  | .ok v => Encoder.encode v { sink }
  | .error error => .error error { sink }

/-- The encoding of a datum as a byte string. -/
def toBytes (d : Datum) : Except EncodeError Bytes :=
  match d.writeTo ({} : Sink) with
  | .ok _ encoder => .ok encoder.sink.bytes.toList
  | .error error _ => .error error

end Datum

namespace ListCollector

/-- Converts an item and adds it. -/
def add (d : Datum) : EStateM EncodeError ListCollector Unit :=
  element d.toValue

end ListCollector

namespace DictCollector

/-- Makes one call in the description of a map. -/
def step : MapStep Datum → EStateM EncodeError DictCollector Unit
  | .key k => key k.keyText
  | .value v => value v.toValue
  | .entry k v => do
    key k.keyText
    value v.toValue

/-- Converts a field and puts it in; a field without content is skipped. -/
def addField : String × Option Datum → EStateM EncodeError DictCollector Unit
  | (_, none) => pure ()
  | (name, some d) => field name d.toValue

end DictCollector

namespace Datum

/-! ## Gathering is a run of single calls -/

theorem collectItems_cons (d : Datum) (ds : List Datum) :
    collectItems (d :: ds) = (do ListCollector.add d; collectItems ds) := by
  rw [collectItems, ListCollector.add]

theorem collectSteps_cons (step : MapStep Datum) (steps : List (MapStep Datum)) :
    collectSteps (step :: steps) = (do DictCollector.step step; collectSteps steps) := by
  cases step with
  | key | value => rw [collectSteps, DictCollector.step]
  | entry k v => simp only [collectSteps, DictCollector.step, bind_assoc]

theorem collectFields_cons (f : String × Option Datum) (fs : List (String × Option Datum)) :
    collectFields (f :: fs) = (do DictCollector.addField f; collectFields fs) := by
  match f with
  | (_, none) => simp only [collectFields, DictCollector.addField, pure_bind]
  | (name, some d) => rw [collectFields, DictCollector.addField]

end Datum

end PackStream
