import PackStream.Proofs.Datum.Denotation
import PackStream.Proofs.Datum.Writing
import PackStream.Proofs.Text.ByteOrder

/-!
# The order in which entries arrive

A dictionary is made of entries that arrive one after the other, from application data or from the
wire. What it holds does not depend on their order: of the entries of a datum the last one with a
name counts, and on the wire no key comes twice. Written again, the keys stand in strictly
increasing order of their bytes.

Main statement: `dict_eq_of_arrival`.
-/

set_option autoImplicit false

namespace PackStream

/-! ## Entries of application data -/

/-- An entry that can be converted: its key is text, and its content has a value. -/
structure SoundEntry where
  key : Datum
  content : Datum
  name : String
  value : Value
  isText : key.IsText name
  converts : content.toValue = .ok value

/-- How entries are given: as those of a map, whole or in two calls each, or as the fields of a
record. -/
inductive EntryForm where
  | map
  | mapOfHalves
  | record (form : RecordForm)

namespace EntryForm

/-- The tag that the entries stand under. -/
def tag? : EntryForm → Option String
  | map | mapOfHalves => none
  | record form => form.tag?

/-- The datum that is made of entries. Fields have the text of their keys as names. -/
def datum : EntryForm → List SoundEntry → Datum
  | map, entries => .map (entries.map fun e => .entry e.key e.content)
  | mapOfHalves, entries => .map (entries.flatMap fun e => [.key e.key, .value e.content])
  | record form, entries => .record form (entries.map fun e => (e.name, some e.content))

end EntryForm

namespace SoundEntry

/-- What the entry puts into a dictionary. -/
def pair (e : SoundEntry) : String × Value :=
  (e.name, e.value)

/-- The last entry with a name has the content. -/
def IsLastContent (entries : List SoundEntry) (s : String) (d : Datum) : Prop :=
  ∃ before e after, entries = before ++ e :: after ∧ e.name = s ∧ e.content = d ∧
    ∀ f ∈ after, f.name ≠ s

/-- The last pair with a name has the value of the last content with it. -/
theorem isLast_map_pair_iff {entries : List SoundEntry} {s : String} {v : Value} :
    IsLast (entries.map pair) s v ↔ ∃ d, IsLastContent entries s d ∧ d.toValue = .ok v := by
  constructor
  · rintro ⟨_, _, split, last⟩
    obtain ⟨before, rest, rfl, rfl, split'⟩ := List.map_eq_append_iff.1 split
    obtain ⟨e, after, rfl, own, rfl⟩ := List.map_eq_cons_iff.1 split'
    cases own
    refine ⟨e.content, ⟨before, e, after, rfl, rfl, rfl, ?_⟩, e.converts⟩
    intro f later
    exact last f.pair (List.mem_map_of_mem later)
  · rintro ⟨d, ⟨before, e, after, rfl, rfl, rfl, last⟩, converted⟩
    have same : e.value = v := Except.ok.inj (e.converts.symm.trans converted)
    refine ⟨before.map pair, after.map pair, ?_, ?_⟩
    · simp [pair, same]
    · intro p later
      obtain ⟨f, mem, rfl⟩ := List.mem_map.1 later
      exact last f mem

/-- If no name comes twice, every content is the last one with its name. -/
theorem isLastContent_iff_of_nodup {entries : List SoundEntry}
    (distinct : (entries.map name).Nodup) {s : String} {d : Datum} :
    IsLastContent entries s d ↔ ∃ e ∈ entries, e.name = s ∧ e.content = d := by
  constructor
  · rintro ⟨before, e, after, rfl, named, content, -⟩
    exact ⟨e, by simp, named, content⟩
  · rintro ⟨e, mem, rfl, rfl⟩
    obtain ⟨before, after, rfl⟩ := List.append_of_mem mem
    refine ⟨before, e, after, rfl, rfl, rfl, ?_⟩
    intro f later same
    rw [List.map_append, List.map_cons] at distinct
    have own := (List.nodup_cons.1 (List.nodup_append.1 distinct).2.1).1
    exact own (List.mem_map.2 ⟨f, later, same⟩)

/-- Where no name comes twice, the order does not matter for which contents count. -/
theorem isLastContent_iff_of_perm {entries arrived : List SoundEntry}
    (distinct : (entries.map name).Nodup) (same : arrived.Perm entries) (s : String) (d : Datum) :
    IsLastContent arrived s d ↔ IsLastContent entries s d := by
  have distinct' : (arrived.map name).Nodup := (same.map name).nodup_iff.2 distinct
  rw [isLastContent_iff_of_nodup distinct, isLastContent_iff_of_nodup distinct']
  simp only [same.mem_iff]

/-! ### Conversion -/

theorem stepsYield (entries : List SoundEntry) :
    Datum.StepsYield (entries.map fun e => .entry e.key e.content) (entries.map pair) := by
  induction entries with
  | nil => exact .nil
  | cons e entries ih => exact .entry (Datum.keyText_eq_ok_iff.2 e.isText) e.converts ih

theorem fieldsYield (entries : List SoundEntry) :
    Datum.FieldsYield (entries.map fun e => (e.name, some e.content)) (entries.map pair) := by
  induction entries with
  | nil => exact .nil
  | cons e entries ih => exact .field e.converts ih

/-- A key and a value in two calls do what they do as an entry. -/
theorem collectSteps_halves (entries : List SoundEntry) :
    Datum.collectSteps (entries.flatMap fun e => [.key e.key, .value e.content]) =
      Datum.collectSteps (entries.map fun e => .entry e.key e.content) := by
  induction entries with
  | nil => rfl
  | cons e entries ih =>
    rw [List.flatMap_cons, List.map_cons, List.cons_append, List.cons_append, List.nil_append,
      Datum.collectSteps, Datum.collectSteps, Datum.collectSteps, ih]

/-- In every form the entries come to the dictionary that their pairs gather to, under the tag of
the form. -/
theorem toValue_datum (form : EntryForm) {entries : List SoundEntry} {es : List (String × Value)}
    (gathered : Gathers (entries.map pair) es) :
    (form.datum entries).toValue = .ok (.underTag form.tag? (.dict es)) := by
  cases form with
  | map => exact (stepsYield entries).toValue_map gathered
  | mapOfHalves =>
    rw [EntryForm.datum, Datum.toValue, collectSteps_halves, ← Datum.toValue]
    exact (stepsYield entries).toValue_map gathered
  | record form => exact (fieldsYield entries).toValue_record gathered form

end SoundEntry

/-! ## Entries on the wire -/

/-- An entry of a dictionary in one of its forms: a form of its key before one of its content. -/
structure EncodedEntry where
  key : String
  content : Value
  keyBytes : Bytes
  contentBytes : Bytes
  keyForm : Wire (.string key) keyBytes
  contentForm : Wire content contentBytes

namespace EncodedEntry

/-- What the entry puts into a dictionary. -/
def pair (e : EncodedEntry) : String × Value :=
  (e.key, e.content)

/-- The form of the entry. -/
def bytes (e : EncodedEntry) : Bytes :=
  e.keyBytes ++ e.contentBytes

theorem wireEntries (entries : List EncodedEntry) :
    WireEntries (entries.map pair) (entries.flatMap bytes) := by
  induction entries with
  | nil => exact .nil
  | cons e entries ih => exact .cons e.keyForm e.contentForm ih

end EncodedEntry

/-! ## Dictionaries written again -/

namespace Reference

/-- The encoding of what stands under a tag, if there is one. -/
def underTag (options : Options) : Option String → Bytes → Bytes
  | none, content => content
  | some tag, content => header options.lengths .dict 1 ++ string options tag ++ content

end Reference

theorem Value.reference_underTag (options : Options) (tag : Option String) (v : Value) :
    (underTag tag v).reference options = Reference.underTag options tag (v.reference options) := by
  cases tag with
  | none => rfl
  | some tag =>
    simp [underTag, tagged, reference, referenceEntries, Reference.underTag]

/-- The bytes are the encoding of a dictionary with these entries, and the keys stand in strictly
increasing order of their bytes. -/
structure WrittenInOrder (options : Options) (entries : List (String × Value)) (bs : Bytes) :
    Prop where
  increasing : entries.Pairwise fun a b => Utf8.encode a.1 < Utf8.encode b.1
  bytes : bs = Reference.header options.lengths .dict entries.length ++
    entries.flatMap fun e => Reference.string options e.1 ++ e.2.reference options

theorem Sorted.writtenInOrder {entries : List (String × Value)} (sorted : Sorted entries)
    (options : Options) :
    WrittenInOrder options entries ((Value.dict entries).reference options) where
  increasing := sorted.imp fun less => Utf8.encode_lt_encode_iff.2 less
  bytes := by rw [Value.reference, Value.referenceEntries_eq_flatMap]

/-! ## Order of arrival -/

/-- Lists of entries with the same last contents come to one dictionary. -/
theorem SoundEntry.gathers_of_isLastContent_iff {entries arrived : List SoundEntry}
    {es : List (String × Value)} (gathered : Gathers (entries.map pair) es)
    (same : ∀ s d, IsLastContent arrived s d ↔ IsLastContent entries s d) :
    Gathers (arrived.map pair) es := by
  refine ⟨gathered.1, ?_⟩
  intro s v
  rw [gathered.2, isLast_map_pair_iff, isLast_map_pair_iff]
  simp only [same]

/-- The encoding of a dictionary, under a tag or not, if there is one. -/
theorem Sorted.writtenInOrder_of_toBytes {es : List (String × Value)} (sorted : Sorted es)
    {options : Options} {tag : Option String} {bs : Bytes}
    (encoded : (Value.underTag tag (.dict es)).toBytes options = .ok bs) :
    ∃ inner, bs = Reference.underTag options tag inner ∧ WrittenInOrder options es inner := by
  obtain ⟨-, rfl⟩ := Value.toBytes_eq_ok_iff.1 encoded
  exact ⟨_, Value.reference_underTag options tag (.dict es), sorted.writtenInOrder options⟩

namespace EncodedEntry

/-- Entries with distinct keys make up one dictionary, whichever way they are arranged. -/
theorem wire_dict {entries arrived : List EncodedEntry} {es : List (String × Value)}
    (distinct : (entries.map key).Nodup) (gathered : (entries.map pair).Perm es)
    (sorted : Sorted es) (same : arrived.Perm entries) {header : Bytes}
    (announced : SizeHeader .dict arrived.length header) :
    Wire (.dict es) (header ++ arrived.flatMap bytes) := by
  have keys : (arrived.map pair).map Prod.fst = arrived.map key := by
    rw [List.map_map]
    rfl
  have count : SizeHeader .dict (arrived.map pair).length header := by
    rwa [List.length_map]
  refine .dict count (wireEntries arrived) ?_ ?_ sorted
  · rw [keys]
    exact (same.map key).nodup_iff.2 distinct
  · exact (same.map pair).trans gathered

end EncodedEntry

/-- Entries of application data whose keys are text and whose contents have values come to one
dictionary, as a map, a record or a record under a tag; and so do all other such entries with the
same last content for every name. These include all rearrangements if no name comes twice.
A dictionary on the wire in which no key comes twice is read as the same value, whichever way its
entries are arranged. In both cases, if the dictionary is written again, its keys stand in strictly
increasing order of their bytes. -/
theorem dict_eq_of_arrival :
    (∀ entries : List SoundEntry, ∃ es : List (String × Value),
        (∀ s v, (s, v) ∈ es ↔ ∃ d, SoundEntry.IsLastContent entries s d ∧ d.toValue = .ok v) ∧
        (∀ arrived : List SoundEntry,
          (∀ s d, SoundEntry.IsLastContent arrived s d ↔ SoundEntry.IsLastContent entries s d) →
          ∀ form : EntryForm,
            (form.datum arrived).toValue = .ok (.underTag form.tag? (.dict es)) ∧
            (form.datum arrived).toBytes = (form.datum entries).toBytes) ∧
        ∀ options tag bs, (Value.underTag tag (.dict es)).toBytes options = .ok bs →
          ∃ inner, bs = Reference.underTag options tag inner ∧ WrittenInOrder options es inner) ∧
    (∀ entries arrived : List SoundEntry, (entries.map SoundEntry.name).Nodup →
        arrived.Perm entries →
        ∀ s d, SoundEntry.IsLastContent arrived s d ↔ SoundEntry.IsLastContent entries s d) ∧
    ∀ entries : List EncodedEntry, (entries.map EncodedEntry.key).Nodup →
      ∃ es : List (String × Value), es.Perm (entries.map EncodedEntry.pair) ∧
        (∀ arrived : List EncodedEntry, arrived.Perm entries →
          ∀ header, SizeHeader .dict arrived.length header →
            let bytes := header ++ arrived.flatMap EncodedEntry.bytes
            Value.ofBytes bytes = .ok (.dict es) ∧
            ∀ (c : Cursor) (rest : Bytes), c.rest = bytes ++ rest →
              ∃ d, Reader.value c = .ok (.dict es) d ∧ d.rest = rest) ∧
        ∀ options bs, (Value.dict es).toBytes options = .ok bs → WrittenInOrder options es bs := by
  refine ⟨?data, fun entries arrived => SoundEntry.isLastContent_iff_of_perm, ?wire⟩
  case data =>
    intro entries
    obtain ⟨es, gathered⟩ : ∃ es, Gathers (entries.map SoundEntry.pair) es :=
      ⟨_, Dict.toList_insertAll_eq_iff_gathers.1 rfl⟩
    refine ⟨es, ?_, ?_, fun options tag bs => gathered.1.writtenInOrder_of_toBytes⟩
    · intro s v
      rw [gathered.2, SoundEntry.isLast_map_pair_iff]
    · intro arrived same form
      have converted := SoundEntry.toValue_datum form gathered
      have converted' := SoundEntry.toValue_datum form
        (SoundEntry.gathers_of_isLastContent_iff gathered same)
      refine ⟨converted', ?_⟩
      rw [Datum.toBytes, Datum.toBytes, Datum.writeTo_of_ok _ converted,
        Datum.writeTo_of_ok _ converted']
  case wire =>
    intro entries distinct
    have keys : ((entries.map EncodedEntry.pair).map Prod.fst).Nodup := by
      rw [List.map_map]
      exact distinct
    obtain ⟨gathered, sorted⟩ := (Dict.toList_insertAll_eq_iff keys).1 rfl
    refine ⟨_, gathered.symm, ?_, ?_⟩
    · intro arrived same header announced
      have form := EncodedEntry.wire_dict distinct gathered sorted same announced
      refine ⟨Reader.ofBytes_eq_ok_iff.2 form, ?_⟩
      intro c rest ahead
      have reads : Reader.Accepts c.rest.length Reader.value Wire := Reader.accepts_value
      exact (reads c (Nat.le_refl _) _ rest).2 ⟨_, ahead, form⟩
    · intro options bs encoded
      obtain ⟨-, rfl⟩ := Value.toBytes_eq_ok_iff.1 encoded
      exact sorted.writtenInOrder options

/-- An entry under a character, as application data. -/
def SoundEntry.flag : SoundEntry where
  key := .char 'b'
  content := .boolean true
  name := "b"
  value := .boolean true
  isText := .char 'b'
  converts := rfl

/-- An entry under a wrapped text, as application data. -/
def SoundEntry.gap : SoundEntry where
  key := .wrapped (.text "a")
  content := .absent
  name := "a"
  value := .null
  isText := .wrapped (.text "a")
  converts := rfl

/-- An entry on the wire, with a key in its shortest form. -/
def EncodedEntry.flag : EncodedEntry where
  key := "b"
  content := .boolean true
  keyBytes := [0x81, 0x62]
  contentBytes := [0xC3]
  keyForm := .string (.tiny (by decide))
  contentForm := .boolean true

/-- An entry on the wire, with a key in a wider form. -/
def EncodedEntry.gap : EncodedEntry where
  key := "a"
  content := .null
  keyBytes := [0xD0, 0x01, 0x61]
  contentBytes := [0xC0]
  keyForm := .string (.size8 (by decide))
  contentForm := .null

/-- Two entries in both orders: as a map of whole entries and of halves, and on the wire under a
short and a wider header. -/
theorem dict_eq_of_arrival_twoOrders :
    let both : Value := .dict [("a", .null), ("b", .boolean true)]
    let whole := EntryForm.map.datum [.flag, .gap]
    let halves := EntryForm.mapOfHalves.datum [.gap, .flag]
    (whole.toValue = .ok both ∧ halves.toValue = .ok both ∧ halves.toBytes = whole.toBytes) ∧
      Value.ofBytes [0xA2, 0x81, 0x62, 0xC3, 0xD0, 0x01, 0x61, 0xC0] = .ok both ∧
      Value.ofBytes [0xD8, 0x02, 0xD0, 0x01, 0x61, 0xC0, 0x81, 0x62, 0xC3] = .ok both := by
  intro both whole halves
  obtain ⟨data, order, wire⟩ := dict_eq_of_arrival
  constructor
  · obtain ⟨es, -, arrives, -⟩ := data [.flag, .gap]
    have swapped := order [.flag, .gap] [.gap, .flag] (by decide) (.swap _ _ _)
    have first := (arrives [.flag, .gap] (fun _ _ => Iff.rfl) .map).1
    obtain ⟨second, bytes⟩ := arrives [.gap, .flag] swapped .mapOfHalves
    have evaluated : whole.toValue = .ok both := rfl
    exact ⟨evaluated, second.trans (first.symm.trans evaluated), bytes⟩
  · obtain ⟨es, -, arrives, -⟩ := wire [.flag, .gap] (by decide)
    have first := (arrives [.flag, .gap] (.refl _) [0xA2] (.tiny (by decide))).1
    have second := (arrives [.gap, .flag] (.swap _ _ _) [0xD8, 0x02] (.size8 (by decide))).1
    have evaluated :
        Value.ofBytes ([0xA2] ++ [.flag, .gap].flatMap EncodedEntry.bytes) = .ok both := rfl
    exact ⟨evaluated, second.trans (first.symm.trans evaluated)⟩

/-- Of two entries with one name the later counts, and it is listed after a smaller name that came
last. -/
example :
    (Datum.map [.entry (.text "b") .unit, .key (.char 'b'), .value (.boolean true),
        .entry (.text "a") .unit]).toValue =
      .ok (.dict [("a", .null), ("b", .boolean true)]) := rfl

end PackStream
