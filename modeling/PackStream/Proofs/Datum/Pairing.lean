import PackStream.Proofs.Datum.Denotation
import PackStream.Proofs.Datum.Recovery

/-!
# Keys and values of a map

A map may be given keys, values and entries in any order, and goes on after calls that fail. A
value belongs to the last key before it that was text, unless another value was tried in between.

What has been offered so far settles which key waits and what the dictionary holds. That is carried
through a run as `Tracks`, from one offer to the next; a call of an entry makes up to two offers.

Main statement: `DictCollector.pairs_keys_with_values`.
-/

set_option autoImplicit false

namespace PackStream

/-! ## Offers -/

/-- What a map is offered at a time. -/
inductive Offer where
  | key (k : Datum)
  | value (d : Datum)

/-- The offers that a call makes: an entry offers its value only if its key is text. -/
def MapStep.offers : MapStep Datum → List Offer
  | .key k => [.key k]
  | .value d => [.value d]
  | .entry k d =>
    match k.keyText with
    | .ok _ => [.key k, .value d]
    | .error _ => [.key k]

namespace Offer

/-- The last key that was text had this text, and no value was offered after it. -/
def Waits (history : List Offer) (s : String) : Prop :=
  ∃ before k after, history = before ++ key k :: after ∧ k.IsText s ∧
    ∀ later ∈ after, ∃ j, later = key j ∧ ∀ t, ¬ j.IsText t

/-- The offer is a value that can be converted, and a key waits for it. -/
def Completes (history : List Offer) (offer : Offer) (s : String) (v : Value) : Prop :=
  ∃ d, offer = value d ∧ Waits history s ∧ d.toValue = .ok v

/-- Of the values that were offered when a key with this text waited, and could be converted, this
is the last. -/
def IsLastPair (history : List Offer) (s : String) (v : Value) : Prop :=
  ∃ before offer after, history = before ++ offer :: after ∧ Completes before offer s v ∧
    ∀ between later rest w, after = between ++ later :: rest →
      ¬ Completes (before ++ offer :: between) later s w

variable {history : List Offer} {offer : Offer} {s : String}

/-- A place in a list that has been extended is the new one or a place in the list before. -/
theorem append_singleton_eq_iff {before after : List Offer} {o : Offer} :
    history ++ [offer] = before ++ o :: after ↔
      (before = history ∧ o = offer ∧ after = []) ∨
        ∃ rest, after = rest ++ [offer] ∧ history = before ++ o :: rest := by
  constructor
  · intro split
    rcases List.eq_nil_or_concat after with rfl | ⟨rest, last, rfl⟩
    · obtain ⟨rfl, same⟩ := List.append_inj' split rfl
      cases same
      exact .inl ⟨rfl, rfl, rfl⟩
    · have parts : history ++ [offer] = (before ++ o :: rest) ++ [last] := by simpa using split
      obtain ⟨rfl, same⟩ := List.append_inj' parts rfl
      cases same
      exact .inr ⟨rest, by simp, rfl⟩
  · rintro (⟨rfl, rfl, rfl⟩ | ⟨rest, rfl, rfl⟩)
    · rfl
    · simp

/-- After a key that is text, that one waits; after one that is not, the key that waited before. -/
theorem waits_append_iff :
    Waits (history ++ [offer]) s ↔
      ∃ k, offer = key k ∧ (k.IsText s ∨ (Waits history s ∧ ∀ t, ¬ k.IsText t)) := by
  constructor
  · rintro ⟨before, k, after, split, text, later⟩
    rcases append_singleton_eq_iff.1 split with ⟨rfl, same, rfl⟩ | ⟨rest, rfl, rfl⟩
    · exact ⟨k, same.symm, .inl text⟩
    · obtain ⟨between, last⟩ := List.forall_mem_append.1 later
      obtain ⟨j, same, noText⟩ := last offer (List.mem_singleton.2 rfl)
      exact ⟨j, same, .inr ⟨⟨before, k, rest, rfl, text, between⟩, noText⟩⟩
  · rintro ⟨k, rfl, text | ⟨⟨before, j, after, rfl, text, later⟩, noText⟩⟩
    · exact ⟨history, k, [], rfl, text, List.forall_mem_nil _⟩
    · refine ⟨before, j, after ++ [key k], by simp, text, ?_⟩
      intro o mem
      rcases List.mem_append.1 mem with earlier | last
      · exact later o earlier
      · exact ⟨k, List.mem_singleton.1 last, noText⟩

theorem isLastPair_append_iff {v : Value} :
    IsLastPair (history ++ [offer]) s v ↔
      Completes history offer s v ∨
        ((∀ w, ¬ Completes history offer s w) ∧ IsLastPair history s v) := by
  constructor
  · rintro ⟨before, o, after, split, completes, last⟩
    rcases append_singleton_eq_iff.1 split with ⟨rfl, rfl, rfl⟩ | ⟨rest, rfl, rfl⟩
    · exact .inl completes
    · refine .inr ⟨fun w => last rest offer [] w rfl, before, o, rest, rfl, completes, ?_⟩
      intro between later tail w here
      apply last between later (tail ++ [offer]) w
      rw [here]
      simp
  · rintro (completes | ⟨not, before, o, after, rfl, completes, last⟩)
    · exact ⟨history, offer, [], rfl, completes, by simp⟩
    · refine ⟨before, o, after ++ [offer], by simp, completes, ?_⟩
      intro between later rest w here
      rcases append_singleton_eq_iff.1 here with ⟨rfl, rfl, rfl⟩ | ⟨tail, rfl, split⟩
      · exact not w
      · exact last between later tail w split

theorem not_waits_nil : ¬ Waits [] s := by
  rintro ⟨before, k, after, split, -⟩
  simp at split

theorem not_isLastPair_nil {v : Value} : ¬ IsLastPair [] s v := by
  rintro ⟨before, o, after, split, -⟩
  simp at split

/-- What a collector does with an offer. -/
def call : Offer → EStateM EncodeError DictCollector Unit
  | key k => DictCollector.key k.keyText
  | value d => DictCollector.value d.toValue

/-- The collector holds what has been offered: the key that waits and the last pairs. -/
structure Tracks (history : List Offer) (c : DictCollector) : Prop where
  tag : c.tag = none
  pending : ∀ s, c.pending = some s ↔ Waits history s
  dict : ∀ (s : String) v, c.dict[s]? = some v ↔ IsLastPair history s v

theorem tracks_nil : Tracks [] .ofMap where
  tag := rfl
  pending s := ⟨nofun, fun waits => absurd waits not_waits_nil⟩
  dict s v := by
    constructor
    · intro found
      simp [DictCollector.ofMap] at found
    · intro last
      exact absurd last not_isLastPair_nil

variable {c : DictCollector}

theorem Tracks.key (h : Tracks history c) (k : Datum) :
    Tracks (history ++ [.key k]) (DictCollector.key k.keyText c).state := by
  have pairs (s : String) (v : Value) :
      IsLastPair (history ++ [.key k]) s v ↔ IsLastPair history s v := by
    simp [isLastPair_append_iff, Completes]
  cases given : k.keyText with
  | ok t =>
    have text := Datum.keyText_eq_ok_iff.1 given
    have own (s : String) : k.IsText s ↔ t = s := by
      rw [← Datum.keyText_eq_ok_iff, given, Except.ok.injEq]
    refine ⟨h.tag, fun s => ?_, fun s v => (h.dict s v).trans (pairs s v).symm⟩
    show some t = some s ↔ _
    rw [waits_append_iff, Option.some.injEq]
    constructor
    · intro same
      exact ⟨k, rfl, .inl ((own s).2 same)⟩
    · rintro ⟨_, ⟨⟩, text' | ⟨-, noText⟩⟩
      · exact (own s).1 text'
      · exact absurd text (noText t)
  | error error =>
    have noText (s : String) : ¬ k.IsText s := by
      rw [← Datum.keyText_eq_ok_iff, given]
      nofun
    refine ⟨h.tag, fun s => (h.pending s).trans ?_, fun s v => (h.dict s v).trans (pairs s v).symm⟩
    rw [waits_append_iff]
    constructor
    · intro waits
      exact ⟨k, rfl, .inr ⟨waits, noText⟩⟩
    · rintro ⟨_, ⟨⟩, text | ⟨waits, -⟩⟩
      · exact absurd text (noText s)
      · exact waits

theorem not_waits_append_value {d : Datum} : ¬ Waits (history ++ [value d]) s := by
  rw [waits_append_iff]
  rintro ⟨_, ⟨⟩, -⟩

theorem Tracks.completes_iff (h : Tracks history c) {d : Datum} {v : Value} :
    Completes history (.value d) s v ↔ c.pending = some s ∧ d.toValue = .ok v := by
  rw [h.pending s]
  constructor
  · rintro ⟨_, ⟨⟩, waits, converted⟩
    exact ⟨waits, converted⟩
  · rintro ⟨waits, converted⟩
    exact ⟨d, rfl, waits, converted⟩

/-- A value that does not come to a pair spends the key that waits. -/
theorem Tracks.spend (h : Tracks history c) {d : Datum}
    (nothing : ∀ s v, ¬ Completes history (.value d) s v) :
    Tracks (history ++ [.value d]) { c with pending := none } where
  tag := h.tag
  pending s := ⟨nofun, fun waits => absurd waits not_waits_append_value⟩
  dict s v := by
    rw [isLastPair_append_iff]
    simp [nothing, h.dict s v]

theorem Tracks.value (h : Tracks history c) (d : Datum) :
    Tracks (history ++ [.value d]) (DictCollector.value d.toValue c).state := by
  cases result : DictCollector.value d.toValue c with
  | error error c' =>
    rw [DictCollector.eq_of_value_error result]
    apply h.spend
    intro s v completes
    obtain ⟨waiting, converted⟩ := h.completes_iff.1 completes
    rw [DictCollector.value_eq_ok_iff.2 ⟨s, v, waiting, converted, rfl⟩] at result
    cases result
  | ok u c' =>
    obtain ⟨t, w, waiting, converted, rfl⟩ := DictCollector.value_eq_ok_iff.1 result
    refine ⟨h.tag, fun s => ⟨nofun, fun waits => absurd waits not_waits_append_value⟩, ?_⟩
    intro s v
    have found : (c.dict.insert t w)[s]? = if t = s then some w else c.dict[s]? := by
      simp only [Std.TreeMap.getElem?_insert, Std.LawfulEqCmp.compare_eq_iff_eq]
    show (c.dict.insert t w)[s]? = some v ↔ _
    rw [found, isLastPair_append_iff]
    simp only [h.completes_iff, waiting, converted, Option.some.injEq, Except.ok.injEq]
    by_cases same : t = s
    · simp [same]
    · simp [same, h.dict s v]

/-- Every offer is tracked. -/
theorem Tracks.call (h : Tracks history c) (offer : Offer) :
    Tracks (history ++ [offer]) (offer.call c).state := by
  cases offer with
  | key k => exact h.key k
  | value d => exact h.value d

/-- A call does what its offers do. -/
theorem state_step (call : MapStep Datum) (c : DictCollector) :
    (DictCollector.step call c).state =
      call.offers.foldl (fun c offer => (offer.call c).state) c := by
  cases call with
  | key k => rfl
  | value d => rfl
  | entry k d =>
    rw [DictCollector.step, MapStep.offers, EStateM.bind_apply]
    cases given : k.keyText with
    | ok s => simp [Offer.call, given, DictCollector.key, EStateM.Result.state]
    | error error => simp [Offer.call, given, DictCollector.key, EStateM.Result.state]

theorem Tracks.offers (h : Tracks history c) (offers : List Offer) :
    Tracks (history ++ offers) (offers.foldl (fun c offer => (offer.call c).state) c) := by
  induction offers generalizing history c with
  | nil => rwa [List.append_nil]
  | cons offer offers ih =>
    have parts : history ++ offer :: offers = (history ++ [offer]) ++ offers := by simp
    rw [parts]
    exact ih (h.call offer)

theorem Tracks.after (h : Tracks history c) (calls : List (MapStep Datum)) :
    Tracks (history ++ calls.flatMap MapStep.offers)
      (CollectorKind.map.collector.after c calls) := by
  induction calls generalizing history c with
  | nil => rwa [List.flatMap_nil, List.append_nil]
  | cons call calls ih =>
    rw [List.flatMap_cons, ← List.append_assoc]
    apply ih
    have step := h.offers call.offers
    rwa [← state_step] at step

end Offer

namespace DictCollector

/-- What comes of a value for a key: the key is spent, whether or not the value can be converted. -/
def valueFor (s : String) (d : Datum) (c : DictCollector) :
    EStateM.Result EncodeError DictCollector Unit :=
  match d.toValue with
  | .ok v => .ok () { c with dict := c.dict.insert s v, pending := none }
  | .error error => .error error { c with pending := none }

theorem step_value_of_pending {c : DictCollector} {s : String} (waiting : c.pending = some s)
    (d : Datum) : step (.value d) c = valueFor s d c := by
  rw [step, valueFor]
  cases converted : d.toValue with
  | ok v => exact value_eq_ok_iff.2 ⟨s, v, waiting, rfl, rfl⟩
  | error error =>
    rw [value, waiting]
    rfl

theorem step_entry_of_isText {k : Datum} {s : String} (text : k.IsText s) (d : Datum)
    (c : DictCollector) : step (.entry k d) c = valueFor s d c := by
  have key : step (.key k) c = .ok () { c with pending := some s } :=
    key_eq_ok_iff.2 ⟨s, Datum.keyText_eq_ok_iff.2 text, rfl⟩
  show (step (.key k) >>= fun _ => step (.value d)) c = _
  rw [EStateM.bind_apply, key]
  exact step_value_of_pending rfl d

/-- Let a map be given keys, values and entries, whether or not the calls succeed. A key is taken if
it is text. A value that can be converted is refused if and only if no key waits, which is to say
that no key was text since the last value was tried; without a waiting key any value is refused for
that reason. Where a key waits, the value goes to that key, which is spent whether or not the value
can be converted. An entry offers its value only if its key is text, and then for that key. In the
end the dictionary holds the last pair of every key, and nothing else. -/
theorem pairs_keys_with_values (calls : List (MapStep Datum)) :
    let c : DictCollector := CollectorKind.map.collector.after .ofMap calls
    let history := calls.flatMap MapStep.offers
    (∀ k, (∃ c', step (.key k) c = .ok () c') ↔ ∃ s, k.IsText s) ∧
      (∀ d v, d.toValue = .ok v →
        ((∃ error c', step (.value d) c = .error error c') ↔ ∀ s, ¬ Offer.Waits history s)) ∧
      (∀ d, (∀ s, ¬ Offer.Waits history s) →
        step (.value d) c = .error (.custom "map value serialized before its key") c) ∧
      (∀ d s, Offer.Waits history s → step (.value d) c = valueFor s d c) ∧
      (∀ k d, (∀ s, k.IsText s → step (.entry k d) c = valueFor s d c) ∧
        ((∀ s, ¬ k.IsText s) → step (.entry k d) c = step (.key k) c)) ∧
      ∃ entries, c.finish = .dict entries ∧ Sorted entries ∧
        ∀ s v, (s, v) ∈ entries ↔ Offer.IsLastPair history s v := by
  intro c history
  have tracks : Offer.Tracks history c := Offer.tracks_nil.after calls
  have early (d : Datum) (unexpected : ∀ s, ¬ Offer.Waits history s) :
      step (.value d) c = .error (.custom "map value serialized before its key") c := by
    have absent : c.pending = none := by
      apply Option.eq_none_iff_forall_ne_some.2
      intro s waiting
      exact unexpected s ((tracks.pending s).1 waiting)
    rw [step, value, absent]
  have expected (d : Datum) (s : String) (waits : Offer.Waits history s) :
      step (.value d) c = valueFor s d c :=
    step_value_of_pending ((tracks.pending s).2 waits) d
  refine ⟨?_, ?_, early, expected, ?_, ?_⟩
  · intro k
    simp only [step, key_eq_ok_iff, Datum.keyText_eq_ok_iff]
    constructor
    · rintro ⟨c', s, text, -⟩
      exact ⟨s, text⟩
    · rintro ⟨s, text⟩
      exact ⟨_, s, text, rfl⟩
  · intro d v converted
    constructor
    · rintro ⟨error, c', failed⟩ s waits
      rw [expected d s waits, valueFor, converted] at failed
      cases failed
    · intro unexpected
      exact ⟨_, _, early d unexpected⟩
  · intro k d
    refine ⟨fun s text => step_entry_of_isText text d c, ?_⟩
    intro noText
    cases given : k.keyText with
    | ok s => exact absurd (Datum.keyText_eq_ok_iff.1 given) (noText s)
    | error error =>
      obtain ⟨alone, entry⟩ := step_of_keyText_error given c
      rw [alone, entry]
  · refine ⟨c.dict.toList, ?_, c.dict.toList_increasing, ?_⟩
    · rw [finish, tracks.tag]
      rfl
    · intro s v
      rw [Std.TreeMap.mem_toList_iff_getElem?_eq_some]
      exact tracks.dict s v

/-- A key that is no text does not take the place of the one that waits, and a value that fails
spends it. -/
example :
    let c := CollectorKind.map.collector
    let calls : List (MapStep Datum) :=
      [.key (.text "a"), .key (.char 'b'), .key .unit, .value .unit,
        .entry (.text "c") (.bytes []), .value .unit, .key (.text "d")]
    c.finish (c.after c.start calls) = .dict [("b", .null)] := rfl

end DictCollector

end PackStream
