import PackStream.Proofs.Datum.Calls
import PackStream.Proofs.Value.Narrowing
import PackStream.Proofs.Value.StructFree
import PackStream.Value.Ordered

/-!
# What converted data is made of

Data is converted to values part by part: a list is made of values that were converted, a dictionary
of entries whose values were converted, and what stands under a tag is a dictionary of one such
entry. A property of values that these ways of building keep therefore holds of everything that data
is converted to, whatever the calls that describe its maps. Dictionaries come out in order of their
keys, and there are no structures.

Main statement: `Value.Closed.toValue`, from which `Datum.ordered_toValue` and
`Datum.structFree_toValue` follow.
-/

set_option autoImplicit false

namespace PackStream

/-- A property of values that the ways keep in which values are built from converted parts. -/
structure Value.Closed (P : Value → Prop) : Prop where
  null : P .null
  boolean (b : Bool) : P (.boolean b)
  integer (i : Int64) : P (.integer i)
  float (x : Binary64) : P (.float x)
  string (s : String) : P (.string s)
  list {items : List Value} (each : ∀ v ∈ items, P v) : P (.list items)
  dict {d : Dict} (each : ∀ (k : String) (v : Value), d[k]? = some v → P v) : P (.ofDict d)
  tagged (tag : String) {content : Value} (h : P content) : P (.tagged tag content)

variable {P : Value → Prop}

theorem Value.Closed.underTag (closed : Value.Closed P) (tag : Option String) {content : Value}
    (h : P content) : P (.underTag tag content) := by
  cases tag with
  | none => exact h
  | some tag => exact closed.tagged tag h

/-! ## Collectors -/

/-- Whether all items that have been gathered have a property. -/
def ListCollector.Holds (P : Value → Prop) (c : ListCollector) : Prop :=
  ∀ v ∈ c.items.toList, P v

theorem ListCollector.Holds.element {c c' : ListCollector} {converted : Except EncodeError Value}
    (h : c.Holds P) (sound : ∀ v, converted = .ok v → P v)
    (succeeds : element converted c = .ok () c') : c'.Holds P := by
  obtain ⟨v, content, rfl⟩ := element_eq_ok_iff.1 succeeds
  intro u mem
  rw [Array.toList_push, List.mem_append, List.mem_singleton] at mem
  rcases mem with earlier | rfl
  · exact h u earlier
  · exact sound u content

namespace DictCollector

/-- Whether the values of all entries that have been gathered have a property. -/
def Holds (P : Value → Prop) (c : DictCollector) : Prop :=
  ∀ (k : String) (v : Value), c.dict[k]? = some v → P v

variable {c c' : DictCollector}

theorem Holds.key {converted : Except EncodeError String} (h : c.Holds P)
    (succeeds : key converted c = .ok () c') : c'.Holds P := by
  obtain ⟨k, -, rfl⟩ := key_eq_ok_iff.1 succeeds
  exact h

theorem Holds.insert (h : c.Holds P) {k : String} {v : Value} (hv : P v) (pending : Option String) :
    Holds P { c with dict := c.dict.insert k v, pending } := by
  intro j u found
  rw [Std.TreeMap.getElem?_insert] at found
  split at found
  · cases found
    exact hv
  · exact h j u found

theorem Holds.field {name : String} {converted : Except EncodeError Value} (h : c.Holds P)
    (sound : ∀ v, converted = .ok v → P v) (succeeds : field name converted c = .ok () c') :
    c'.Holds P := by
  obtain ⟨v, content, rfl⟩ := field_eq_ok_iff.1 succeeds
  exact h.insert (sound v content) c.pending

theorem Holds.value {converted : Except EncodeError Value} (h : c.Holds P)
    (sound : ∀ v, converted = .ok v → P v) (succeeds : value converted c = .ok () c') :
    c'.Holds P := by
  obtain ⟨k, v, -, content, rfl⟩ := value_eq_ok_iff.1 succeeds
  exact h.insert (sound v content) none

theorem holds_empty (tag : Option String) : Holds P { tag } := by
  intro k v found
  rw [Std.TreeMap.getElem?_emptyc] at found
  cases found

end DictCollector

/-! ## Conversion -/

namespace Value.Closed

mutual

/-- What data is converted to has every property that the ways of building values keep. -/
theorem toValue (closed : Closed P) (d : Datum) {v : Value} (h : d.toValue = .ok v) : P v := by
  cases d with
  | boolean b =>
    cases h
    exact closed.boolean b
  | integer type x =>
    obtain ⟨i, rfl⟩ := Datum.integerValue_eq_integer h
    exact closed.integer i
  | float32 x =>
    cases h
    exact closed.float x.widen
  | float64 x =>
    cases h
    exact closed.float x
  | char c =>
    cases h
    exact closed.string _
  | text s =>
    cases h
    exact closed.string s
  | bytes bs => cases h
  | absent | unit =>
    cases h
    exact closed.null
  | present content | wrapped content => exact closed.toValue content h
  | bareTag tag =>
    cases h
    exact closed.string tag
  | tagged tag content =>
    rw [Datum.toValue] at h
    cases converted : content.toValue with
    | error error =>
      rw [converted] at h
      cases h
    | ok u =>
      rw [converted] at h
      cases h
      exact closed.tagged tag (closed.toValue content converted)
  | sequence form items =>
    rw [Datum.toValue] at h
    split at h
    · rename_i c collected
      cases h
      have empty : (ListCollector.ofForm form).Holds P :=
        fun _ none => absurd none List.not_mem_nil
      exact closed.underTag _ (closed.list (closed.collectItems items empty collected))
    · cases h
  | map steps =>
    rw [Datum.toValue] at h
    split at h
    · rename_i c collected
      cases h
      have empty : DictCollector.ofMap.Holds P := DictCollector.holds_empty none
      exact closed.underTag _ (closed.dict (closed.collectSteps steps empty collected))
    · cases h
  | record form fields =>
    rw [Datum.toValue] at h
    split at h
    · rename_i c collected
      cases h
      have empty : (DictCollector.ofForm form).Holds P := DictCollector.holds_empty form.tag?
      exact closed.underTag _ (closed.dict (closed.collectFields fields empty collected))
    · cases h
  | failure reason => cases h

theorem collectItems (closed : Closed P) (ds : List Datum) {c c' : ListCollector}
    (h : c.Holds P) (collected : Datum.collectItems ds c = .ok () c') : c'.Holds P := by
  cases ds with
  | nil =>
    cases collected
    exact h
  | cons d ds =>
    obtain ⟨⟨⟩, c₁, first, others⟩ := EStateM.bind_eq_ok_iff.1 collected
    exact closed.collectItems ds (h.element (fun v => closed.toValue d) first) others

theorem collectSteps (closed : Closed P) (steps : List (MapStep Datum)) {c c' : DictCollector}
    (h : c.Holds P) (collected : Datum.collectSteps steps c = .ok () c') : c'.Holds P := by
  match steps with
  | [] =>
    cases collected
    exact h
  | .key k :: steps =>
    obtain ⟨⟨⟩, c₁, first, others⟩ := EStateM.bind_eq_ok_iff.1 collected
    exact closed.collectSteps steps (h.key first) others
  | .value d :: steps =>
    obtain ⟨⟨⟩, c₁, first, others⟩ := EStateM.bind_eq_ok_iff.1 collected
    exact closed.collectSteps steps (h.value (fun v => closed.toValue d) first) others
  | .entry k d :: steps =>
    obtain ⟨⟨⟩, c₁, first, rest⟩ := EStateM.bind_eq_ok_iff.1 collected
    obtain ⟨⟨⟩, c₂, second, others⟩ := EStateM.bind_eq_ok_iff.1 rest
    exact closed.collectSteps steps ((h.key first).value (fun v => closed.toValue d) second) others

theorem collectFields (closed : Closed P) (fields : List (String × Option Datum))
    {c c' : DictCollector} (h : c.Holds P) (collected : Datum.collectFields fields c = .ok () c') :
    c'.Holds P := by
  match fields with
  | [] =>
    cases collected
    exact h
  | (_, none) :: fields => exact closed.collectFields fields h collected
  | (name, some d) :: fields =>
    obtain ⟨⟨⟩, c₁, first, others⟩ := EStateM.bind_eq_ok_iff.1 collected
    exact closed.collectFields fields (h.field (fun v => closed.toValue d) first) others

end

end Value.Closed

/-! ## Properties of converted data -/

theorem Value.closed_ordered : Closed Ordered where
  null := .null
  boolean := .boolean
  integer := .integer
  float := .float
  string := .string
  list := .list
  dict := ordered_ofDict
  tagged _ _ := ordered_tagged

theorem Value.closed_structFree : Closed StructFree where
  null := .null
  boolean := .boolean
  integer := .integer
  float := .float
  string := .string
  list := .list
  dict {d} each := by
    refine .dict fun e mem => ?_
    exact each e.1 e.2 (Std.TreeMap.mem_toList_iff_getElem?_eq_some.1 mem)
  tagged tag content h := by
    refine .dict fun e mem => ?_
    cases List.mem_singleton.1 mem
    exact h

/-- Data is converted to values whose dictionaries are in order. -/
theorem Datum.ordered_toValue {d : Datum} {v : Value} (h : d.toValue = .ok v) : v.Ordered :=
  Value.closed_ordered.toValue d h

/-- Data is not converted to structures, nor to anything with a structure in it. -/
theorem Datum.structFree_toValue {d : Datum} {v : Value} (h : d.toValue = .ok v) : v.StructFree :=
  Value.closed_structFree.toValue d h

end PackStream
