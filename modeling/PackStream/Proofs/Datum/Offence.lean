import PackStream.Proofs.Datum.Denotation

/-!
# When conversion fails

Conversion goes through a datum in order, each key before its value, and ends at the first place
that offends: a byte array, an integer that no value holds, data that fails, or a key that is no
text. Without such a place it yields what the datum stands for.

Main statement: `Datum.toValue_ends_at_first_offence`.
-/

set_option autoImplicit false

namespace PackStream

/-! ## Places -/

/-- A part of a datum in its position: a value or a key is expected there. -/
inductive Place where
  | value (d : Datum)
  | key (d : Datum)

namespace Datum

mutual

/-- The places in a datum that stands in value position, in the order in which they are met. What
is inside a key is not looked at for itself. -/
def places : Datum → List Place
  | .present content => .value (.present content) :: content.places
  | .wrapped content => .value (.wrapped content) :: content.places
  | .tagged tag content => .value (.tagged tag content) :: content.places
  | .sequence form items => .value (.sequence form items) :: placesItems items
  | .map steps => .value (.map steps) :: placesSteps steps
  | .record form fields => .value (.record form fields) :: placesFields fields
  | d => [.value d]

/-- The places in items one after the other. -/
def placesItems : List Datum → List Place
  | [] => []
  | d :: ds => d.places ++ placesItems ds

/-- The places in the calls of a map one after the other. -/
def placesSteps : List (MapStep Datum) → List Place
  | [] => []
  | .key k :: steps => .key k :: placesSteps steps
  | .value d :: steps => d.places ++ placesSteps steps
  | .entry k d :: steps => .key k :: (d.places ++ placesSteps steps)

/-- The places in fields one after the other. -/
def placesFields : List (String × Option Datum) → List Place
  | [] => []
  | (_, none) :: fields => placesFields fields
  | (_, some d) :: fields => d.places ++ placesFields fields

end

end Datum

namespace Place

/-- What a description of data promises: integers are of their type, and maps are given entry by
entry. -/
def WellFormed : Place → Prop
  | value (.integer type x) => type.Contains x
  | value (.map steps) => ∀ step ∈ steps, ∃ k d, step = .entry k d
  | _ => True

/-- Why a place cannot be converted. -/
inductive Offends : Place → EncodeError → Prop
  | bytes (bs : Bytes) : Offends (value (.bytes bs)) (.unsupportedType "byte array")
  /-- The error names the integer, or the greatest of 128 bits for any larger one. -/
  | integer {type : IntType} {x : Int} (wide : ¬ (Value.minInt ≤ x ∧ x ≤ Value.maxInt)) :
      Offends (value (.integer type x))
        (.integerOverflow (min x 0x7FFFFFFFFFFFFFFFFFFFFFFFFFFFFFFF) Value.maxInt)
  | failure (reason : String) : Offends (value (.failure reason)) (.custom reason)
  | key {k : Datum} {error : EncodeError} (refused : k.RefusedAsKey error) :
      Offends (key k) error

/-- The error of a place that offends. -/
def offence : Place → Option EncodeError
  | value (.bytes _) => some (.unsupportedType "byte array")
  | value (.integer _ x) =>
    if Value.minInt ≤ x ∧ x ≤ Value.maxInt then none
    else some (.overflow (min x 0x7FFFFFFFFFFFFFFFFFFFFFFFFFFFFFFF))
  | value (.failure reason) => some (.custom reason)
  | value _ => none
  | key k =>
    match k.keyText with
    | .ok _ => none
    | .error error => some error

theorem offence_eq_some_iff {place : Place} {error : EncodeError} :
    place.offence = some error ↔ place.Offends error := by
  constructor
  · intro h
    cases place with
    | key k =>
      rw [offence] at h
      cases refused : k.keyText with
      | ok s =>
        rw [refused] at h
        cases h
      | error error' =>
        rw [refused] at h
        cases h
        exact .key (Datum.keyText_eq_error_iff.1 refused)
    | value d =>
      cases d with
      | bytes bs =>
        cases h
        exact .bytes bs
      | integer type x =>
        rw [offence] at h
        split at h
        · cases h
        · rename_i wide
          cases h
          exact .integer wide
      | failure reason =>
        cases h
        exact .failure reason
      | _ => cases h
  · intro h
    cases h with
    | bytes | failure => rfl
    | integer wide => exact if_neg wide
    | key refused =>
      rw [offence, Datum.keyText_eq_error_iff.2 refused]

theorem offence_eq_none_iff {place : Place} :
    place.offence = none ↔ ∀ error, ¬ place.Offends error := by
  simp only [← offence_eq_some_iff, Option.eq_none_iff_forall_ne_some, ne_eq]

theorem findSome?_offence_eq_none_iff {places : List Place} :
    places.findSome? Place.offence = none ↔
      ∀ place ∈ places, ∀ error, ¬ place.Offends error := by
  simp only [List.findSome?_eq_none_iff, offence_eq_none_iff]

/-- The error that is found first is that of the first place that offends. -/
theorem findSome?_offence_eq_some_iff {places : List Place} {error : EncodeError} :
    places.findSome? Place.offence = some error ↔
      ∃ before place after, places = before ++ place :: after ∧ place.Offends error ∧
        ∀ earlier ∈ before, ∀ e, ¬ earlier.Offends e := by
  simp only [List.findSome?_eq_some_iff, offence_eq_some_iff, offence_eq_none_iff]

end Place

/-! ## Parts in order -/

/-- Either no place offends and there is success, or the first that does makes for failure with its
error. -/
def Settles (places : List Place) (success : Prop) (failure : EncodeError → Prop) : Prop :=
  (places.findSome? Place.offence = none ∧ success) ∨
    ∃ error, places.findSome? Place.offence = some error ∧ failure error

namespace Settles

variable {xs ys : List Place} {S T U : Prop} {F G H : EncodeError → Prop}

theorem imp (h : Settles xs S F) (success : S → T) (failure : ∀ error, F error → G error) :
    Settles xs T G := by
  rcases h with ⟨clean, s⟩ | ⟨error, found, failed⟩
  · exact .inl ⟨clean, success s⟩
  · exact .inr ⟨error, found, failure error failed⟩

/-- What comes later counts only after success. -/
theorem append (first : Settles xs S F) (others : Settles ys T G) (success : S → T → U)
    (early : ∀ error, F error → H error) (late : S → ∀ error, G error → H error) :
    Settles (xs ++ ys) U H := by
  unfold Settles
  rw [List.findSome?_append]
  rcases first with ⟨clean, s⟩ | ⟨error, found, failed⟩
  · rw [clean, Option.none_or]
    exact others.imp (success s) (late s)
  · rw [found, Option.some_or]
    exact .inr ⟨error, rfl, early error failed⟩

end Settles

/-- Whether an operation fails with an error from every state. -/
def Fails {σ : Type} (op : EStateM EncodeError σ Unit) (error : EncodeError) : Prop :=
  ∀ s, ∃ t, op s = .error error t

/-- Whether an operation succeeds from every state. -/
def Passes {σ : Type} (op : EStateM EncodeError σ Unit) : Prop :=
  ∀ s, ∃ t, op s = .ok () t

section

variable {σ : Type} {op : EStateM EncodeError σ Unit} {error : EncodeError}

theorem Fails.bind (h : Fails op error) (next : Unit → EStateM EncodeError σ Unit) :
    Fails (op >>= next) error := by
  intro s
  obtain ⟨t, failed⟩ := h s
  refine ⟨t, ?_⟩
  rw [EStateM.bind_apply, failed]

theorem Passes.bind_fails {next : EStateM EncodeError σ Unit} (h : Passes op)
    (later : Fails next error) : Fails (op >>= fun _ => next) error := by
  intro s
  obtain ⟨t, passed⟩ := h s
  obtain ⟨u, failed⟩ := later t
  refine ⟨u, ?_⟩
  rw [EStateM.bind_apply, passed]
  exact failed

end

namespace Datum

/-! ## Single calls of collectors -/

theorem Denotes.passes_add {d : Datum} {v : Value} (h : Denotes d v) :
    Passes (ListCollector.add d) := by
  intro c
  rw [ListCollector.add, h.toValue_eq]
  exact ⟨_, rfl⟩

theorem fails_add {d : Datum} {error : EncodeError} (h : d.toValue = .error error) :
    Fails (ListCollector.add d) error := by
  intro c
  rw [ListCollector.add, h]
  exact ⟨_, rfl⟩

theorem Denotes.passes_addField {d : Datum} {v : Value} (h : Denotes d v) (name : String) :
    Passes (DictCollector.addField (name, some d)) := by
  intro c
  rw [DictCollector.addField, h.toValue_eq]
  exact ⟨_, rfl⟩

theorem fails_addField {d : Datum} {error : EncodeError} (h : d.toValue = .error error)
    (name : String) : Fails (DictCollector.addField (name, some d)) error := by
  intro c
  rw [DictCollector.addField, h]
  exact ⟨_, rfl⟩

theorem Denotes.passes_step {k d : Datum} {s : String} {v : Value} (key : k.IsText s)
    (content : Denotes d v) : Passes (DictCollector.step (.entry k d)) := by
  intro c
  rw [DictCollector.step, keyText_eq_ok_iff.2 key, content.toValue_eq]
  exact ⟨_, rfl⟩

theorem RefusedAsKey.fails_step {k : Datum} {error : EncodeError} (h : k.RefusedAsKey error)
    (d : Datum) : Fails (DictCollector.step (.entry k d)) error := by
  intro c
  rw [DictCollector.step, keyText_eq_error_iff.2 h]
  exact ⟨_, rfl⟩

theorem IsText.fails_step {k d : Datum} {s : String} {error : EncodeError} (key : k.IsText s)
    (h : d.toValue = .error error) : Fails (DictCollector.step (.entry k d)) error := by
  intro c
  rw [DictCollector.step, keyText_eq_ok_iff.2 key, h]
  exact ⟨_, rfl⟩

/-! ## Conversion ends at the first offence -/

theorem settles_key (k : Datum) :
    Settles [.key k] (∃ s, k.IsText s) fun error => k.RefusedAsKey error := by
  unfold Settles
  rw [List.findSome?_singleton, Place.offence]
  cases given : k.keyText with
  | ok s => exact .inl ⟨rfl, s, keyText_eq_ok_iff.1 given⟩
  | error error => exact .inr ⟨error, rfl, keyText_eq_error_iff.1 given⟩

theorem settles_integer {type : IntType} {x : Int} (contains : type.Contains x) :
    Settles [.value (.integer type x)] (∃ v, Denotes (.integer type x) v)
      fun error => toValue (.integer type x) = .error error := by
  have narrows := narrows_integerValue contains
  unfold Settles
  rw [List.findSome?_singleton, Place.offence, toValue]
  by_cases fits : Value.minInt ≤ x ∧ x ≤ Value.maxInt
  · obtain ⟨i, same, -⟩ := narrows.ok fits
    exact .inl ⟨if_pos fits, _, .integer contains same⟩
  · have beyond : x < -0x8000000000000000 ∨ 0x7FFFFFFFFFFFFFFF < x := by
      unfold Value.minInt Value.maxInt at fits
      omega
    exact .inr ⟨_, if_neg fits, narrows.error beyond⟩

mutual

/-- Without an offence a datum stands for a value; otherwise the first ends its conversion. -/
theorem settles_places {d : Datum} (wellFormed : ∀ place ∈ d.places, place.WellFormed) :
    Settles d.places (∃ v, d.Denotes v) fun error => d.toValue = .error error := by
  cases d with
  | boolean b => exact .inl ⟨rfl, _, .boolean b⟩
  | integer type x => exact settles_integer (List.forall_mem_cons.1 wellFormed).1
  | float32 x => exact .inl ⟨rfl, _, .float32 (Binary32.widens_iff.2 rfl)⟩
  | float64 x => exact .inl ⟨rfl, _, .float64 x⟩
  | char c => exact .inl ⟨rfl, _, .char c⟩
  | text s => exact .inl ⟨rfl, _, .text s⟩
  | bytes bs => exact .inr ⟨_, rfl, rfl⟩
  | absent => exact .inl ⟨rfl, _, .absent⟩
  | unit => exact .inl ⟨rfl, _, .unit⟩
  | bareTag tag => exact .inl ⟨rfl, _, .bareTag tag⟩
  | failure reason => exact .inr ⟨_, rfl, rfl⟩
  | present content =>
    have inner := settles_places (List.forall_mem_cons.1 wellFormed).2
    refine inner.imp ?_ fun error refused => refused
    rintro ⟨v, h⟩
    exact ⟨v, .present h⟩
  | wrapped content =>
    have inner := settles_places (List.forall_mem_cons.1 wellFormed).2
    refine inner.imp ?_ fun error refused => refused
    rintro ⟨v, h⟩
    exact ⟨v, .wrapped h⟩
  | tagged tag content =>
    have inner := settles_places (List.forall_mem_cons.1 wellFormed).2
    refine inner.imp ?_ ?_
    · rintro ⟨v, h⟩
      exact ⟨_, .tagged h⟩
    · intro error refused
      rw [toValue, refused]
      rfl
  | sequence form items =>
    have inner := settles_placesItems (List.forall_mem_cons.1 wellFormed).2
    refine inner.imp ?_ ?_
    · rintro ⟨vs, each⟩
      cases form with
      | plain => exact ⟨_, .sequence rfl each⟩
      | tuple => exact ⟨_, .sequence rfl each⟩
      | namedTuple => exact ⟨_, .sequence rfl each⟩
      | tagged tag => exact ⟨_, .taggedSequence each⟩
    · intro error refused
      obtain ⟨c, failed⟩ := refused (.ofForm form)
      rw [toValue, failed]
  | map steps =>
    obtain ⟨paired, others⟩ := List.forall_mem_cons.1 wellFormed
    refine (settles_placesSteps paired others).imp ?_ ?_
    · rintro ⟨pairs, each⟩
      exact ⟨_, .map each (Dict.toList_insertAll_eq_iff_gathers.1 rfl)⟩
    · intro error refused
      obtain ⟨c, failed⟩ := refused .ofMap
      rw [toValue, failed]
  | record form fields =>
    have inner := settles_placesFields (List.forall_mem_cons.1 wellFormed).2
    refine inner.imp ?_ ?_
    · rintro ⟨pairs, each⟩
      cases form with
      | plain => exact ⟨_, .record each (Dict.toList_insertAll_eq_iff_gathers.1 rfl)⟩
      | tagged tag => exact ⟨_, .taggedRecord each (Dict.toList_insertAll_eq_iff_gathers.1 rfl)⟩
    · intro error refused
      obtain ⟨c, failed⟩ := refused (.ofForm form)
      rw [toValue, failed]

theorem settles_placesItems {ds : List Datum}
    (wellFormed : ∀ place ∈ placesItems ds, place.WellFormed) :
    Settles (placesItems ds) (∃ vs, DenotesItems ds vs) (Fails (collectItems ds)) := by
  cases ds with
  | nil => exact .inl ⟨rfl, [], .nil⟩
  | cons d ds =>
    obtain ⟨own, inner⟩ := List.forall_mem_append.1 wellFormed
    rw [collectItems_cons]
    refine (settles_places own).append (settles_placesItems inner) ?_ ?_ ?_
    · rintro ⟨v, first⟩ ⟨vs, others⟩
      exact ⟨v :: vs, .cons first others⟩
    · intro error refused
      exact (fails_add refused).bind _
    · rintro ⟨v, first⟩ error refused
      exact first.passes_add.bind_fails refused

theorem settles_placesSteps {steps : List (MapStep Datum)}
    (paired : ∀ step ∈ steps, ∃ k d, step = .entry k d)
    (wellFormed : ∀ place ∈ placesSteps steps, place.WellFormed) :
    Settles (placesSteps steps) (∃ pairs, DenotesSteps steps pairs)
      (Fails (collectSteps steps)) := by
  cases steps with
  | nil => exact .inl ⟨rfl, [], .nil⟩
  | cons step steps =>
    obtain ⟨⟨k, d, rfl⟩, later⟩ := List.forall_mem_cons.1 paired
    obtain ⟨own, inner⟩ := List.forall_mem_append.1 (List.forall_mem_cons.1 wellFormed).2
    rw [collectSteps_cons]
    have entry : Settles (.key k :: d.places) ((∃ s, k.IsText s) ∧ ∃ v, d.Denotes v)
        (Fails (DictCollector.step (.entry k d))) := by
      refine (settles_key k).append (settles_places own) And.intro ?_ ?_
      · intro error refused
        exact refused.fails_step d
      · rintro ⟨s, key⟩ error refused
        exact key.fails_step refused
    refine entry.append (settles_placesSteps later inner) ?_ ?_ ?_
    · rintro ⟨⟨s, key⟩, v, content⟩ ⟨pairs, others⟩
      exact ⟨(s, v) :: pairs, .entry key content others⟩
    · intro error refused
      exact refused.bind _
    · rintro ⟨⟨s, key⟩, v, content⟩ error refused
      exact (content.passes_step key).bind_fails refused

theorem settles_placesFields {fields : List (String × Option Datum)}
    (wellFormed : ∀ place ∈ placesFields fields, place.WellFormed) :
    Settles (placesFields fields) (∃ pairs, DenotesFields fields pairs)
      (Fails (collectFields fields)) := by
  match fields with
  | [] => exact .inl ⟨rfl, [], .nil⟩
  | (name, none) :: fields =>
    have inner : ∀ place ∈ placesFields fields, place.WellFormed := wellFormed
    refine (settles_placesFields inner).imp ?_ fun error refused => refused
    rintro ⟨pairs, others⟩
    exact ⟨pairs, .skipped others⟩
  | (name, some d) :: fields =>
    obtain ⟨own, inner⟩ := List.forall_mem_append.1 wellFormed
    rw [collectFields_cons]
    refine (settles_places own).append (settles_placesFields inner) ?_ ?_ ?_
    · rintro ⟨v, content⟩ ⟨pairs, others⟩
      exact ⟨(name, v) :: pairs, .field content others⟩
    · intro error refused
      exact (fails_addField refused name).bind _
    · rintro ⟨v, content⟩ error refused
      exact (content.passes_addField name).bind_fails refused

end

/-! ## Success -/

/-- Only unsigned integers of 64 bits and integers of 128 bits may not fit into a value. -/
theorem fits_of_contains {type : IntType} {x : Int} (contains : type.Contains x)
    (narrow : ¬ (type = .unsigned .bits64 ∨ type.bits = .bits128)) :
    Value.minInt ≤ x ∧ x ≤ Value.maxInt := by
  unfold Value.minInt Value.maxInt
  cases type with
  | signed bits =>
    cases bits with
    | bits8 | bits16 | bits32 | bits64 =>
      simp only [IntType.Contains, IntBits.count] at contains
      omega
    | bits128 => exact absurd (.inr rfl) narrow
  | unsigned bits =>
    cases bits with
    | bits8 | bits16 | bits32 =>
      simp only [IntType.Contains, IntBits.count] at contains
      omega
    | bits64 => exact absurd (.inl rfl) narrow
    | bits128 => exact absurd (.inr rfl) narrow

theorem forall_not_offends_iff {places : List Place}
    (wellFormed : ∀ place ∈ places, place.WellFormed) :
    (∀ place ∈ places, ∀ error, ¬ place.Offends error) ↔
      (∀ k, .key k ∈ places → ∃ s, k.IsText s) ∧
      (∀ bs, .value (.bytes bs) ∉ places) ∧
      (∀ type x, .value (.integer type x) ∈ places →
        type = .unsigned .bits64 ∨ type.bits = .bits128 →
          Value.minInt ≤ x ∧ x ≤ Value.maxInt) ∧
      ∀ reason, .value (.failure reason) ∉ places := by
  constructor
  · intro clean
    refine ⟨?_, ?_, ?_, ?_⟩
    · intro k hk
      cases given : k.keyText with
      | ok s => exact ⟨s, keyText_eq_ok_iff.1 given⟩
      | error error => exact absurd (.key (keyText_eq_error_iff.1 given)) (clean _ hk error)
    · intro bs hb
      exact clean _ hb _ (.bytes bs)
    · intro type x hx _
      by_cases fits : Value.minInt ≤ x ∧ x ≤ Value.maxInt
      · exact fits
      · exact absurd (.integer fits) (clean _ hx _)
    · intro reason hr
      exact clean _ hr _ (.failure reason)
  · rintro ⟨keys, bytes, integers, failures⟩ place hp error offends
    cases offends with
    | bytes bs => exact bytes bs hp
    | @integer type x wide =>
      by_cases large : type = .unsigned .bits64 ∨ type.bits = .bits128
      · exact wide (integers type x hp large)
      · exact wide (fits_of_contains (wellFormed _ hp) large)
    | failure reason => exact failures reason hp
    | @key k _ refused =>
      obtain ⟨s, text⟩ := keys k hp
      have given := keyText_eq_ok_iff.2 text
      rw [keyText_eq_error_iff.2 refused] at given
      cases given

/-- Conversion succeeds exactly if every key is text, no byte array and no failing data is met as a
value, and every integer of a type that is too wide fits. Then it yields the value that the datum
stands for; otherwise it ends with the error of the first place that offends. -/
theorem toValue_ends_at_first_offence {d : Datum}
    (wellFormed : ∀ place ∈ d.places, place.WellFormed) :
    ((∃ v, d.toValue = .ok v) ↔
        (∀ k, .key k ∈ d.places → ∃ s, k.IsText s) ∧
        (∀ bs, .value (.bytes bs) ∉ d.places) ∧
        (∀ type x, .value (.integer type x) ∈ d.places →
          type = .unsigned .bits64 ∨ type.bits = .bits128 →
            Value.minInt ≤ x ∧ x ≤ Value.maxInt) ∧
        ∀ reason, .value (.failure reason) ∉ d.places) ∧
      (∀ v, d.toValue = .ok v ↔ d.Denotes v) ∧
      ∀ error, d.toValue = .error error ↔
        ∃ before place after, d.places = before ++ place :: after ∧ place.Offends error ∧
          ∀ earlier ∈ before, ∀ e, ¬ earlier.Offends e := by
  rw [← forall_not_offends_iff wellFormed, ← Place.findSome?_offence_eq_none_iff]
  simp only [← Place.findSome?_offence_eq_some_iff]
  rcases settles_places wellFormed with ⟨clean, v, stands⟩ | ⟨error, found, refused⟩
  · have converted := stands.toValue_eq
    refine ⟨?_, ?_, ?_⟩
    · exact ⟨fun _ => clean, fun _ => ⟨v, converted⟩⟩
    · intro u
      refine ⟨fun h => ?_, Denotes.toValue_eq⟩
      rw [converted] at h
      cases h
      exact stands
    · intro error
      rw [converted, clean]
      exact ⟨nofun, nofun⟩
  · refine ⟨?_, ?_, ?_⟩
    · rw [refused, found]
      exact ⟨nofun, nofun⟩
    · intro u
      refine ⟨fun h => ?_, Denotes.toValue_eq⟩
      rw [refused] at h
      cases h
    · intro e
      rw [refused, found, Except.error.injEq, Option.some.injEq]

/-- A tuple with a map, whose second key is no text, before an integer that does not fit. -/
def mixedTuple : Datum :=
  .sequence .tuple
    [.map
      [.entry (.wrapped (.char 'k')) (.tagged "t" (.integer (.signed .bits128) 5)),
        .entry (.integer (.signed .bits128) 7) (.bytes [0])],
      .integer (.unsigned .bits64) 0xFFFFFFFFFFFFFFFF]

theorem toValue_ends_at_first_offence_mixedTuple :
    (∀ place ∈ mixedTuple.places, place.WellFormed) ∧
      mixedTuple.toValue = .error (.custom "i128 is not supported") := by
  have wellFormed : ∀ place ∈ mixedTuple.places, place.WellFormed := by
    simp [mixedTuple, places, placesItems, placesSteps, Place.WellFormed, IntType.Contains,
      IntBits.count]
    decide
  have refused : (Place.key (.integer (.signed .bits128) 7)).Offends
      (.custom "i128 is not supported") := .key (.signed128 7)
  refine ⟨wellFormed, ((toValue_ends_at_first_offence wellFormed).2.2 _).2 ?_⟩
  refine ⟨mixedTuple.places.take 5, _, mixedTuple.places.drop 6, rfl, refused, ?_⟩
  rw [← Place.findSome?_offence_eq_none_iff]
  rfl

end Datum

end PackStream
