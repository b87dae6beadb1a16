import PackStream.Proofs.Number.Widening
import PackStream.Proofs.Outcome
import PackStream.Proofs.Value.Entries
import PackStream.Proofs.Value.Narrowing

/-!
# What application data stands for

`Datum.Denotes d v` says that the value `v` is the counterpart of the datum `d`, rule by rule over
the data, without collectors and without failure. Of the pairs of a map and of the fields of a
record that share a key, the last one counts.

Main statement: `Denotes.toValue_eq`, data with a counterpart is converted to it. The values that
conversion can fail for are the subject of another module.
-/

set_option autoImplicit false

namespace PackStream

namespace Datum

/-! ## Keys -/

/-- The text of data that is text by itself: it may stand in key position. -/
inductive IsText : Datum → String → Prop
  | text (s : String) : IsText (.text s) s
  | char (c : Char) : IsText (.char c) (String.singleton c)
  | bareTag (tag : String) : IsText (.bareTag tag) tag
  | wrapped {content : Datum} {s : String} (h : IsText content s) : IsText (.wrapped content) s

/-- The categories of data that is no text by itself. What stands under a tag is a case of an
enumeration, in whatever form its content is given. -/
inductive OfCategory : Datum → String → Prop
  | boolean (b : Bool) : OfCategory (.boolean b) "boolean"
  | integer (type : IntType) (x : Int) : OfCategory (.integer type x) "integer"
  | float32 (x : Binary32) : OfCategory (.float32 x) "float"
  | float64 (x : Binary64) : OfCategory (.float64 x) "float"
  | bytes (bs : Bytes) : OfCategory (.bytes bs) "byte array"
  | absent : OfCategory .absent "null"
  | unit : OfCategory .unit "null"
  | present (content : Datum) : OfCategory (.present content) "option"
  | sequence {form : SequenceForm} (untagged : form.tag? = none) (items : List Datum) :
      OfCategory (.sequence form items) "list"
  | map (steps : List (MapStep Datum)) : OfCategory (.map steps) "dict"
  | record (fields : List (String × Option Datum)) : OfCategory (.record .plain fields) "dict"
  | tagged (tag : String) (content : Datum) : OfCategory (.tagged tag content) "enum variant"
  | taggedSequence (tag : String) (items : List Datum) :
      OfCategory (.sequence (.tagged tag) items) "enum variant"
  | taggedRecord (tag : String) (fields : List (String × Option Datum)) :
      OfCategory (.record (.tagged tag) fields) "enum variant"

/-- Whether data is an integer of 128 bits. -/
def IsWideInteger (d : Datum) : Prop :=
  ∃ type x, d = .integer type x ∧ type.bits = .bits128

/-- Data is text, has a category, fails by itself, or is a wrapper. -/
theorem cases_key (d : Datum) :
    (∃ s, d.IsText s) ∨ (∃ category, d.OfCategory category) ∨
      (∃ reason, d = .failure reason) ∨ ∃ content, d = .wrapped content := by
  cases d with
  | text s => exact .inl ⟨s, .text s⟩
  | char c => exact .inl ⟨_, .char c⟩
  | bareTag tag => exact .inl ⟨tag, .bareTag tag⟩
  | failure reason => exact .inr (.inr (.inl ⟨reason, rfl⟩))
  | wrapped content => exact .inr (.inr (.inr ⟨content, rfl⟩))
  | sequence form items =>
    cases form with
    | tagged tag => exact .inr (.inl ⟨_, .taggedSequence tag items⟩)
    | plain | tuple | namedTuple => exact .inr (.inl ⟨_, .sequence rfl items⟩)
  | record form fields =>
    cases form with
    | tagged tag => exact .inr (.inl ⟨_, .taggedRecord tag fields⟩)
    | plain => exact .inr (.inl ⟨_, .record fields⟩)
  | _ => exact .inr (.inl ⟨_, by constructor⟩)

/-- Why data that is no text is refused in key position. Most data is refused by its category. -/
inductive RefusedAsKey : Datum → EncodeError → Prop
  | wrapped {content : Datum} {error : EncodeError} (h : RefusedAsKey content error) :
      RefusedAsKey (.wrapped content) error
  | failure (reason : String) : RefusedAsKey (.failure reason) (.custom reason)
  | signed128 (x : Int) :
      RefusedAsKey (.integer (.signed .bits128) x) (.custom "i128 is not supported")
  | unsigned128 (x : Int) :
      RefusedAsKey (.integer (.unsigned .bits128) x) (.custom "u128 is not supported")
  | category {d : Datum} {category : String} (own : d.OfCategory category)
      (narrow : ¬ d.IsWideInteger) :
      RefusedAsKey d (.unsupportedType s!"map key of type {category}")

/-- Data is text or is refused as a key. -/
theorem isText_or_refusedAsKey (d : Datum) :
    (∃ s, d.IsText s) ∨ ∃ error, d.RefusedAsKey error := by
  obtain text | ⟨category, own⟩ | ⟨reason, rfl⟩ | ⟨content, rfl⟩ := d.cases_key
  · exact .inl text
  · by_cases wide : d.IsWideInteger
    · obtain ⟨type, x, rfl, bits⟩ := wide
      cases type with
      | signed =>
        cases bits
        exact .inr ⟨_, .signed128 x⟩
      | unsigned =>
        cases bits
        exact .inr ⟨_, .unsigned128 x⟩
    · exact .inr ⟨_, .category own wide⟩
  · exact .inr ⟨_, .failure reason⟩
  · obtain ⟨s, text⟩ | ⟨error, refused⟩ := content.isText_or_refusedAsKey
    · exact .inl ⟨s, .wrapped text⟩
    · exact .inr ⟨error, .wrapped refused⟩

theorem keyText_eq_ok_iff {d : Datum} {s : String} : d.keyText = .ok s ↔ d.IsText s := by
  constructor
  · intro h
    fun_induction keyText d with
    | case1 | case2 | case3 =>
      cases h
      constructor
    | case4 content ih => exact .wrapped (ih h)
    | case5 | case6 | case7 | case8 => cases h
  · intro h
    induction h with
    | text | char | bareTag => rfl
    | wrapped _ ih => exact ih

theorem OfCategory.keyText_eq {d : Datum} {category : String} (h : d.OfCategory category)
    (narrow : ¬ d.IsWideInteger) :
    d.keyText = .error (.unsupportedType s!"map key of type {category}") := by
  cases h with
  | integer type x =>
    have bits : type.bits ≠ .bits128 := fun wide => narrow ⟨type, x, rfl, wide⟩
    exact if_neg bits
  | @sequence form untagged items =>
    cases form with
    | tagged tag => cases untagged
    | _ => rfl
  | _ => rfl

theorem RefusedAsKey.keyText_eq {d : Datum} {error : EncodeError} (h : d.RefusedAsKey error) :
    d.keyText = .error error := by
  induction h with
  | wrapped _ ih => exact ih
  | failure | signed128 | unsigned128 => rfl
  | category own narrow => exact own.keyText_eq narrow

theorem keyText_eq_error_iff {d : Datum} {error : EncodeError} :
    d.keyText = .error error ↔ d.RefusedAsKey error := by
  constructor
  · intro h
    obtain ⟨s, text⟩ | ⟨named, refused⟩ := d.isText_or_refusedAsKey
    · rw [keyText_eq_ok_iff.2 text] at h
      cases h
    · rw [refused.keyText_eq] at h
      cases h
      exact refused
  · exact RefusedAsKey.keyText_eq

/-! ## Values -/

mutual

/-- The value that a datum stands for. -/
inductive Denotes : Datum → Value → Prop
  | boolean (b : Bool) : Denotes (.boolean b) (.boolean b)
  | integer {type : IntType} {x : Int} {i : Int64} (contains : type.Contains x)
      (same : i.toInt = x) : Denotes (.integer type x) (.integer i)
  | float32 {x : Binary32} {y : Binary64} (same : x.Widens y) : Denotes (.float32 x) (.float y)
  | float64 (x : Binary64) : Denotes (.float64 x) (.float x)
  | char (c : Char) : Denotes (.char c) (.string (String.singleton c))
  | text (s : String) : Denotes (.text s) (.string s)
  | absent : Denotes .absent .null
  | present {content : Datum} {v : Value} (h : Denotes content v) : Denotes (.present content) v
  | unit : Denotes .unit .null
  | wrapped {content : Datum} {v : Value} (h : Denotes content v) : Denotes (.wrapped content) v
  | bareTag (tag : String) : Denotes (.bareTag tag) (.string tag)
  | tagged {tag : String} {content : Datum} {v : Value} (h : Denotes content v) :
      Denotes (.tagged tag content) (.dict [(tag, v)])
  | sequence {form : SequenceForm} {items : List Datum} {vs : List Value}
      (untagged : form.tag? = none) (each : DenotesItems items vs) :
      Denotes (.sequence form items) (.list vs)
  | taggedSequence {tag : String} {items : List Datum} {vs : List Value}
      (each : DenotesItems items vs) :
      Denotes (.sequence (.tagged tag) items) (.dict [(tag, .list vs)])
  | map {steps : List (MapStep Datum)} {pairs entries : List (String × Value)}
      (each : DenotesSteps steps pairs) (gathered : Gathers pairs entries) :
      Denotes (.map steps) (.dict entries)
  | record {fields : List (String × Option Datum)} {pairs entries : List (String × Value)}
      (each : DenotesFields fields pairs) (gathered : Gathers pairs entries) :
      Denotes (.record .plain fields) (.dict entries)
  | taggedRecord {tag : String} {fields : List (String × Option Datum)}
      {pairs entries : List (String × Value)} (each : DenotesFields fields pairs)
      (gathered : Gathers pairs entries) :
      Denotes (.record (.tagged tag) fields) (.dict [(tag, .dict entries)])

/-- The values that items stand for, in order. -/
inductive DenotesItems : List Datum → List Value → Prop
  | nil : DenotesItems [] []
  | cons {d : Datum} {v : Value} {ds : List Datum} {vs : List Value} (first : Denotes d v)
      (others : DenotesItems ds vs) : DenotesItems (d :: ds) (v :: vs)

/-- The pairs that the entries of a map stand for, in order. -/
inductive DenotesSteps : List (MapStep Datum) → List (String × Value) → Prop
  | nil : DenotesSteps [] []
  | entry {k d : Datum} {s : String} {v : Value} {steps : List (MapStep Datum)}
      {pairs : List (String × Value)} (key : k.IsText s) (content : Denotes d v)
      (others : DenotesSteps steps pairs) : DenotesSteps (.entry k d :: steps) ((s, v) :: pairs)

/-- The pairs that fields stand for, in order. A field without content stands for none. -/
inductive DenotesFields : List (String × Option Datum) → List (String × Value) → Prop
  | nil : DenotesFields [] []
  | skipped {name : String} {fields : List (String × Option Datum)}
      {pairs : List (String × Value)} (others : DenotesFields fields pairs) :
      DenotesFields ((name, none) :: fields) pairs
  | field {name : String} {d : Datum} {v : Value} {fields : List (String × Option Datum)}
      {pairs : List (String × Value)} (content : Denotes d v)
      (others : DenotesFields fields pairs) :
      DenotesFields ((name, some d) :: fields) ((name, v) :: pairs)

end

/-! ## Entries and fields that are converted -/

/-- The pairs that the entries of a map are converted to, in order. -/
inductive StepsYield : List (MapStep Datum) → List (String × Value) → Prop
  | nil : StepsYield [] []
  | entry {k d : Datum} {s : String} {v : Value} {steps : List (MapStep Datum)}
      {pairs : List (String × Value)} (key : k.keyText = .ok s) (content : d.toValue = .ok v)
      (others : StepsYield steps pairs) : StepsYield (.entry k d :: steps) ((s, v) :: pairs)

/-- The pairs that fields are converted to, in order. -/
inductive FieldsYield : List (String × Option Datum) → List (String × Value) → Prop
  | nil : FieldsYield [] []
  | skipped {name : String} {fields : List (String × Option Datum)}
      {pairs : List (String × Value)} (others : FieldsYield fields pairs) :
      FieldsYield ((name, none) :: fields) pairs
  | field {name : String} {d : Datum} {v : Value} {fields : List (String × Option Datum)}
      {pairs : List (String × Value)} (content : d.toValue = .ok v)
      (others : FieldsYield fields pairs) :
      FieldsYield ((name, some d) :: fields) ((name, v) :: pairs)

/-- The pairs are put in one after the other. -/
theorem StepsYield.collectSteps_eq {steps : List (MapStep Datum)} {pairs : List (String × Value)}
    (h : StepsYield steps pairs) (c : DictCollector) :
    ∃ c', collectSteps steps c = .ok () c' ∧ c'.tag = c.tag ∧
      c'.dict = Dict.insertAll c.dict pairs := by
  induction h generalizing c with
  | nil => exact ⟨c, rfl, rfl, rfl⟩
  | @entry k d s v _ _ key content _ ih =>
    obtain ⟨c', collected, tag, dict⟩ :=
      ih { c with dict := c.dict.insert s v, pending := none }
    refine ⟨c', ?_, tag, dict⟩
    rw [collectSteps, key, content]
    exact collected

/-- The pairs are put in one after the other. -/
theorem FieldsYield.collectFields_eq {fields : List (String × Option Datum)}
    {pairs : List (String × Value)} (h : FieldsYield fields pairs) (c : DictCollector) :
    ∃ c', collectFields fields c = .ok () c' ∧ c'.tag = c.tag ∧
      c'.dict = Dict.insertAll c.dict pairs := by
  induction h generalizing c with
  | nil => exact ⟨c, rfl, rfl, rfl⟩
  | skipped _ ih => exact ih c
  | @field name d v _ _ content _ ih =>
    obtain ⟨c', collected, tag, dict⟩ := ih { c with dict := c.dict.insert name v }
    refine ⟨c', ?_, tag, dict⟩
    rw [collectFields, content]
    exact collected

/-- Gathered pairs make up the dictionary of their entries. -/
theorem finish_of_gathers {pairs entries : List (String × Value)} {c : DictCollector}
    (gathered : Gathers pairs entries) (dict : c.dict = Dict.insertAll ∅ pairs) :
    c.finish = .underTag c.tag (.dict entries) := by
  rw [DictCollector.finish, dict, Value.ofDict,
    Dict.toList_insertAll_eq_iff_gathers.2 gathered]

theorem StepsYield.toValue_map {steps : List (MapStep Datum)}
    {pairs entries : List (String × Value)} (h : StepsYield steps pairs)
    (gathered : Gathers pairs entries) : toValue (.map steps) = .ok (.dict entries) := by
  obtain ⟨c, collected, tag, dict⟩ := h.collectSteps_eq .ofMap
  rw [toValue, collected]
  simp only [finish_of_gathers gathered dict, tag]
  rfl

theorem FieldsYield.toValue_record {fields : List (String × Option Datum)}
    {pairs entries : List (String × Value)} (h : FieldsYield fields pairs)
    (gathered : Gathers pairs entries) (form : RecordForm) :
    toValue (.record form fields) = .ok (.underTag form.tag? (.dict entries)) := by
  obtain ⟨c, collected, tag, dict⟩ := h.collectFields_eq (.ofForm form)
  rw [toValue, collected]
  simp only [finish_of_gathers gathered dict, tag]
  rfl

/-! ## Conversion -/

theorem toValue_sequence {form : SequenceForm} {items : List Datum} {c : ListCollector}
    (collected : collectItems items (.ofForm form) = .ok () c) :
    toValue (.sequence form items) = .ok c.finish := by
  rw [toValue, collected]

mutual

/-- Data that stands for a value is converted to it. -/
theorem Denotes.toValue_eq {d : Datum} {v : Value} (h : Denotes d v) : d.toValue = .ok v := by
  match h with
  | .boolean _ | .float64 _ | .char _ | .text _ | .absent | .unit | .bareTag _ => rfl
  | .integer contains same => exact (narrows_integerValue contains).eq_ok same
  | .float32 same =>
    rw [Binary32.widens_iff.1 same]
    rfl
  | .present h => exact h.toValue_eq
  | .wrapped h => exact h.toValue_eq
  | .tagged h =>
    rw [toValue, h.toValue_eq]
    rfl
  | .sequence untagged each =>
    obtain ⟨c, collected, tag, items⟩ := each.collectItems_eq (.ofForm _)
    rw [toValue_sequence collected, ListCollector.finish, tag, items, ListCollector.ofForm,
      untagged]
    rfl
  | .taggedSequence each =>
    obtain ⟨c, collected, tag, items⟩ := each.collectItems_eq (.ofForm _)
    rw [toValue_sequence collected, ListCollector.finish, tag, items]
    rfl
  | .map each gathered => exact each.yields.toValue_map gathered
  | .record each gathered => exact each.yields.toValue_record gathered .plain
  | .taggedRecord each gathered => exact each.yields.toValue_record gathered (.tagged _)

/-- Items that stand for values are gathered after the values that are already there. -/
theorem DenotesItems.collectItems_eq {ds : List Datum} {vs : List Value} (h : DenotesItems ds vs)
    (c : ListCollector) :
    ∃ c', collectItems ds c = .ok () c' ∧ c'.tag = c.tag ∧
      c'.items.toList = c.items.toList ++ vs := by
  match h with
  | .nil => exact ⟨c, rfl, rfl, (List.append_nil _).symm⟩
  | .cons (v := v) first others =>
    obtain ⟨c', collected, tag, items⟩ := others.collectItems_eq { c with items := c.items.push v }
    refine ⟨c', ?_, tag, ?_⟩
    · rw [collectItems_cons, EStateM.bind_apply, ListCollector.add, first.toValue_eq]
      exact collected
    · rw [items, Array.toList_push, List.append_assoc]
      rfl

/-- Entries are converted to the pairs that they stand for. -/
theorem DenotesSteps.yields {steps : List (MapStep Datum)} {pairs : List (String × Value)}
    (h : DenotesSteps steps pairs) : StepsYield steps pairs := by
  match h with
  | .nil => exact .nil
  | .entry key content others =>
    exact .entry (keyText_eq_ok_iff.2 key) content.toValue_eq others.yields

/-- Fields are converted to the pairs that they stand for. -/
theorem DenotesFields.yields {fields : List (String × Option Datum)}
    {pairs : List (String × Value)} (h : DenotesFields fields pairs) :
    FieldsYield fields pairs := by
  match h with
  | .nil => exact .nil
  | .skipped others => exact .skipped others.yields
  | .field content others => exact .field content.toValue_eq others.yields

end

end Datum

end PackStream
