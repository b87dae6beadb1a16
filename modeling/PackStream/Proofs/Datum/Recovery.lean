import PackStream.Proofs.Datum.Calls

/-!
# Collectors that go on after failures

A collector can be called again after a call that failed, and ends with what it would have ended
with if the failed calls had not been made.

The two runs need not agree in between: a failed value spends the key that waited for it, so a key
may wait in the run without the failures that waits no longer in the other. No call that succeeds
can tell, since a value succeeds only where a key waits. What is carried through a run is therefore
a relation between the two collectors, `Shadow`, and not their equality.

Main statement: `CollectorKind.finish_succeeding`.
-/

set_option autoImplicit false

namespace PackStream

/-! ## Collectors of all kinds -/

/-- A collector: what it remembers, the calls it takes, and the value it ends with. -/
structure Collector where
  State : Type
  Call : Type
  start : State
  call : Call → EStateM EncodeError State Unit
  finish : State → Value

namespace Collector

variable (c : Collector)

/-- The state after calls one after the other, each made whether or not those before it failed. -/
def after : c.State → List c.Call → c.State
  | s, [] => s
  | s, call :: calls => after (c.call call s).state calls

/-- The calls that succeed when each is made whether or not those before it failed. -/
def succeeding : c.State → List c.Call → List c.Call
  | _, [] => []
  | s, call :: calls =>
    match c.call call s with
    | .ok _ t => call :: succeeding t calls
    | .error _ t => succeeding t calls

/-- A relation between the state of a run with failed calls and that of the run without them. What
succeeds in the first succeeds in the second, what fails in the first need not be made in the
second, and both end with the same value. -/
structure Shadow (R : c.State → c.State → Prop) : Prop where
  refl (s : c.State) : R s s
  ok {s t s' : c.State} {call : c.Call} (related : R s t) (succeeds : c.call call s = .ok () s') :
    ∃ t', c.call call t = .ok () t' ∧ R s' t'
  error {s t s' : c.State} {call : c.Call} {error : EncodeError} (related : R s t)
    (fails : c.call call s = .error error s') : R s' t
  finish {s t : c.State} (related : R s t) : c.finish s = c.finish t

variable {c} {R : c.State → c.State → Prop}

theorem after_append (s : c.State) (xs ys : List c.Call) :
    c.after s (xs ++ ys) = c.after (c.after s xs) ys := by
  induction xs generalizing s with
  | nil => rfl
  | cons call xs ih => exact ih (c.call call s).state

/-- The calls that succeed, made alone, all succeed again and end in a related state. -/
theorem Shadow.forM_succeeding (h : c.Shadow R) (calls : List c.Call) {s t : c.State}
    (related : R s t) :
    ∃ t', forM (c.succeeding s calls) c.call t = .ok () t' ∧ R (c.after s calls) t' := by
  induction calls generalizing s t with
  | nil => exact ⟨t, rfl, related⟩
  | cons call calls ih =>
    rw [succeeding, after]
    cases result : c.call call s with
    | error error s' => exact ih (h.error related result)
    | ok u s' =>
      obtain ⟨t', succeeds, related'⟩ := h.ok related result
      obtain ⟨t'', others, final⟩ := ih related'
      refine ⟨t'', ?_, final⟩
      dsimp only
      rw [List.forM_cons, EStateM.bind_apply, succeeds]
      exact others

/-- A failed call makes no difference to the value. -/
theorem Shadow.finish_of_error (h : c.Shadow R) {s s' : c.State} {call : c.Call}
    {error : EncodeError} (fails : c.call call s = .error error s') : c.finish s' = c.finish s :=
  h.finish (h.error (h.refl s) fails)

end Collector

/-! ## The collectors at hand -/

/-- The kinds of collectors: of items, of the steps of a map, and of fields. -/
inductive CollectorKind where
  | sequence (form : SequenceForm)
  | map
  | record (form : RecordForm)

/-- The collector of a kind, as it is before the first call. -/
def CollectorKind.collector : CollectorKind → Collector
  | sequence form =>
    { State := ListCollector
      Call := Datum
      start := .ofForm form
      call := ListCollector.add
      finish := ListCollector.finish }
  | map =>
    { State := DictCollector
      Call := MapStep Datum
      start := .ofMap
      call := DictCollector.step
      finish := DictCollector.finish }
  | record form =>
    { State := DictCollector
      Call := String × Option Datum
      start := .ofForm form
      call := DictCollector.addField
      finish := DictCollector.finish }

namespace DictCollector

/-- The same entries under the same tag; and a key that waits here waits there. -/
structure Shadowed (c d : DictCollector) : Prop where
  tag : c.tag = d.tag
  dict : c.dict = d.dict
  pending : ∀ k, c.pending = some k → d.pending = some k

variable {c d c' : DictCollector} {error : EncodeError}

theorem Shadowed.refl (c : DictCollector) : Shadowed c c :=
  ⟨rfl, rfl, fun _ waiting => waiting⟩

theorem Shadowed.finish (h : Shadowed c d) : c.finish = d.finish := by
  unfold DictCollector.finish
  rw [h.tag, h.dict]

/-- No key needs to wait. -/
theorem Shadowed.spend (h : Shadowed c d) : Shadowed { c with pending := none } d :=
  ⟨h.tag, h.dict, nofun⟩

theorem Shadowed.key_ok {converted : Except EncodeError String} (h : Shadowed c d)
    (succeeds : key converted c = .ok () c') :
    ∃ d', key converted d = .ok () d' ∧ Shadowed c' d' := by
  obtain ⟨k, text, rfl⟩ := key_eq_ok_iff.1 succeeds
  exact ⟨_, key_eq_ok_iff.2 ⟨k, text, rfl⟩, h.tag, h.dict, fun _ waiting => waiting⟩

theorem Shadowed.field_ok {name : String} {converted : Except EncodeError Value}
    (h : Shadowed c d) (succeeds : field name converted c = .ok () c') :
    ∃ d', field name converted d = .ok () d' ∧ Shadowed c' d' := by
  obtain ⟨v, content, rfl⟩ := field_eq_ok_iff.1 succeeds
  refine ⟨_, field_eq_ok_iff.2 ⟨v, content, rfl⟩, h.tag, ?_, h.pending⟩
  exact congrArg (·.insert name v) h.dict

theorem Shadowed.value_ok {converted : Except EncodeError Value} (h : Shadowed c d)
    (succeeds : value converted c = .ok () c') :
    ∃ d', value converted d = .ok () d' ∧ Shadowed c' d' := by
  obtain ⟨k, v, waiting, content, rfl⟩ := value_eq_ok_iff.1 succeeds
  refine ⟨_, value_eq_ok_iff.2 ⟨k, v, h.pending k waiting, content, rfl⟩, h.tag, ?_, nofun⟩
  exact congrArg (·.insert k v) h.dict

theorem Shadowed.step_ok {step : MapStep Datum} (h : Shadowed c d)
    (succeeds : DictCollector.step step c = .ok () c') :
    ∃ d', DictCollector.step step d = .ok () d' ∧ Shadowed c' d' := by
  cases step with
  | key k => exact h.key_ok succeeds
  | value v => exact h.value_ok succeeds
  | entry k v =>
    obtain ⟨⟨⟩, c₁, first, second⟩ := EStateM.bind_eq_ok_iff.1 succeeds
    obtain ⟨d₁, first', h₁⟩ := h.key_ok first
    obtain ⟨d', second', h'⟩ := h₁.value_ok second
    exact ⟨d', EStateM.bind_eq_ok_iff.2 ⟨(), d₁, first', second'⟩, h'⟩

theorem Shadowed.step_error {step : MapStep Datum} (h : Shadowed c d)
    (fails : DictCollector.step step c = .error error c') : Shadowed c' d := by
  cases step with
  | key k =>
    obtain ⟨-, rfl⟩ := key_eq_error_iff.1 fails
    exact h
  | value v =>
    rw [eq_of_value_error fails]
    exact h.spend
  | entry k v =>
    obtain first | ⟨⟨⟩, c₁, first, second⟩ := EStateM.bind_eq_error_iff.1 fails
    · obtain ⟨-, rfl⟩ := key_eq_error_iff.1 first
      exact h
    · -- The key is in its place when the value fails, which spends it.
      obtain ⟨text, -, rfl⟩ := key_eq_ok_iff.1 first
      rw [eq_of_value_error second]
      exact h.spend

theorem Shadowed.addField_ok {f : String × Option Datum} (h : Shadowed c d)
    (succeeds : addField f c = .ok () c') : ∃ d', addField f d = .ok () d' ∧ Shadowed c' d' := by
  match f with
  | (_, none) =>
    cases succeeds
    exact ⟨d, rfl, h⟩
  | (name, some content) => exact h.field_ok succeeds

theorem Shadowed.addField_error {f : String × Option Datum} (h : Shadowed c d)
    (fails : addField f c = .error error c') : Shadowed c' d := by
  match f with
  | (_, none) => cases fails
  | (name, some content) =>
    obtain ⟨-, rfl⟩ := field_eq_error_iff.1 fails
    exact h

end DictCollector

namespace CollectorKind

/-- Every collector has a relation that is carried through its runs. -/
theorem exists_shadow (kind : CollectorKind) :
    ∃ R : kind.collector.State → kind.collector.State → Prop,
      kind.collector.Shadow R := by
  cases kind with
  | sequence form =>
    refine ⟨fun c d : ListCollector => c = d, fun _ => rfl, ?_, ?_, ?_⟩
    · rintro c _ c' call rfl succeeds
      exact ⟨c', succeeds, rfl⟩
    · rintro c _ c' call error rfl fails
      exact (ListCollector.element_eq_error_iff.1 fails).2
    · rintro c _ rfl
      rfl
  | map =>
    exact ⟨DictCollector.Shadowed, .refl, fun related => related.step_ok,
      fun related => related.step_error, fun related => related.finish⟩
  | record form =>
    exact ⟨DictCollector.Shadowed, .refl, fun related => related.addField_ok,
      fun related => related.addField_error, fun related => related.finish⟩

/-- Let a collector be called any number of times, whether or not the calls succeed. On a new
collector the calls that succeeded, and they alone, all succeed and end with the same value. In
particular a further call that fails leaves the value as it is. -/
theorem finish_succeeding (kind : CollectorKind) (calls : List kind.collector.Call) :
    let c := kind.collector
    (∃ s, forM (c.succeeding c.start calls) c.call c.start = .ok () s ∧
      c.finish s = c.finish (c.after c.start calls)) ∧
    ∀ call error, (c.call call (c.after c.start calls)).outcome = .error error →
      c.finish (c.after c.start (calls ++ [call])) = c.finish (c.after c.start calls) := by
  intro c
  obtain ⟨R, shadow⟩ := kind.exists_shadow
  constructor
  · obtain ⟨s, succeed, related⟩ := shadow.forM_succeeding calls (shadow.refl c.start)
    exact ⟨s, succeed, (shadow.finish related).symm⟩
  · intro call error fails
    rw [Collector.after_append]
    show c.finish (c.call call (c.after c.start calls)).state = _
    cases result : c.call call (c.after c.start calls) with
    | ok u s =>
      rw [result] at fails
      cases fails
    | error error' s => exact shadow.finish_of_error result

/-- A value that fails keeps the entry that is there under its key. -/
example :
    let c := map.collector
    let calls := [.entry (.text "a") .unit, .key (.text "a"), .value (.bytes [])]
    c.finish (c.after c.start calls) = .dict [("a", .null)] := rfl

end CollectorKind

end PackStream
