import PackStream.Proofs.Decoding.Report
import PackStream.Proofs.Encoding.Warnings

/-!
# Reports of failures

An encoder reports a failure once, from the outermost call, however deep in the value it arose, and
only if the call was to encode a value as a whole; everything else that it reports is a warning. A
reader reports a reserved marker that it refuses. So the failures that are reported can be told
from what the calls come to, and the other way round.

Main statement: `reports_match_outcomes`.
-/

set_option autoImplicit false

namespace PackStream

variable {σ : Type} [Writer σ]

/-- The kind that is reported of a value. -/
def Value.reportedKind : Value → Kind
  | .null => .null
  | .boolean _ => .boolean
  | .integer _ => .integer
  | .float _ => .float
  | .string _ => .string
  | .list _ => .list
  | .dict _ => .dict
  | .struct _ _ => .struct

theorem Value.kind_eq_reportedKind (v : Value) : v.kind = v.reportedKind := by
  cases v <;> rfl

/-- The report of a call's failure, with the kind of the value that was to be encoded, the wording
of the error and how many bytes were written for the call. Other calls than those that encode a
value as a whole report none. -/
def Call.aborted (call : Call σ) (e : Encoder σ) : List Event :=
  match call, call.run e with
  | .value v, .error error d =>
    [.encodeAborted v.reportedKind error.message (d.written - e.written)]
  | _, _ => []

theorem Call.aborted_of_parts {call : Call σ} (parts : ¬ ∃ v, call = value v) (e : Encoder σ) :
    call.aborted e = [] := by
  cases call with
  | value v => exact absurd ⟨v, rfl⟩ parts
  | _ => rfl

namespace Encoder

/-- The reports of failures in a session, oldest first. -/
def aborts : Encoder σ → List (Call σ) → List Event
  | _, [] => []
  | e, call :: calls => call.aborted e ++ aborts (call.run e).state calls

/-! ## One call -/

/-- The steps of a value report warnings, and nothing else. -/
theorem warned_of_performAll (v : Value) (e : Encoder σ) :
    ∃ warned, (∀ event ∈ warned, event.level = .warn) ∧
      (performAll (v.steps e.options 0) e).state.events.toList = e.events.toList ++ warned := by
  obtain ⟨warned, events, begins, -⟩ := events_of_performAll (v.steps e.options 0) e
  refine ⟨warned, ?_, events⟩
  intro event mem
  have announced := begins.trans (v.announces_warnings e.options).begins
  have warning := announced.subset mem
  rw [← v.warnings_warnings] at warning
  exact of_decide_eq_true (List.mem_filter.1 warning).2

/-- A call reports warnings, and after them its failure. -/
theorem events_of_call {e : Encoder σ} (outermost : e.depth = 0) (call : Call σ) :
    ∃ warned, (∀ event ∈ warned, event.level = .warn) ∧
      (call.run e).state.events.toList = e.events.toList ++ warned ++ call.aborted e := by
  by_cases whole : ∃ v, call = .value v
  · obtain ⟨v, rfl⟩ := whole
    obtain ⟨warned, level, events⟩ := warned_of_performAll v e
    refine ⟨warned, level, ?_⟩
    have run_eq : (Call.value v).run e = encode v e := rfl
    unfold Call.aborted
    rw [run_eq, encode_eq, outermost]
    cases run : performAll (v.steps e.options 0) e with
    | ok u d =>
      rw [run] at events
      exact events.trans (List.append_nil _).symm
    | error error d =>
      rw [run] at events
      rw [← events]
      show _ = _ ++ [Event.encodeAborted v.reportedKind _ _]
      rw [← v.kind_eq_reportedKind]
      exact Array.toList_push
  · simp only [Call.aborted_of_parts whole, List.append_nil]
    obtain ⟨v, same⟩ | ⟨error, same⟩ | ⟨f, same⟩ := call.run_eq whole
    · rw [same, encodeValue_eq, outermost]
      exact warned_of_performAll v e
    · rw [same]
      exact ⟨[], nofun, (List.append_nil _).symm⟩
    · rw [same]
      exact ⟨[], nofun, (List.append_nil _).symm⟩

/-! ## Sessions -/

theorem written_le_of_call {e : Encoder σ} (outermost : e.depth = 0) (call : Call σ) :
    e.written ≤ (call.run e).state.written := by
  rw [resumes_call call e outermost, EStateM.Result.state_mapState]
  exact Nat.le_add_right _ _

/-- A session leaves the reports of its failures for debugging, in their order, and no others. -/
theorem debug_events_of_session {options : Options} {e : Encoder σ} (ready : e.IsReady options)
    (calls : List (Call σ)) :
    (e.after calls).events.toList.filter (·.level = .debug) =
      e.events.toList.filter (·.level = .debug) ++ e.aborts calls := by
  induction calls generalizing e with
  | nil => exact (List.append_nil _).symm
  | cons call calls ih =>
    obtain ⟨warned, level, events⟩ := events_of_call ready.1 call
    have none : warned.filter (·.level = .debug) = [] := by
      apply List.filter_eq_nil_iff.2
      intro event mem
      simp [level event mem]
    have all : (call.aborted e).filter (·.level = .debug) = call.aborted e := by
      unfold Call.aborted
      split <;> rfl
    show ((call.run e).state.after calls).events.toList.filter _ = _
    rw [ih (ready.run call), events, List.filter_append, List.filter_append, none, all, aborts,
      List.append_nil, List.append_assoc]

end Encoder

/-- Let an encoder be called in any way, on any sink, and go on after errors. Every call reports
warnings at most, and after them, if it was to encode a value as a whole and failed, one event with
the kind of that value, the wording of the error and the growth of the count of bytes. A session
reports the failures of its calls, and no others. A reader that refuses a reserved marker reports
the marker once, at the lowest level, and nothing else is reported, whether or not it is to read the
input to its end. -/
theorem reports_match_outcomes (options : Options) (sink : σ) :
    (∀ (past : List (Call σ)) (call : Call σ),
      let e : Encoder σ := .after { sink, options } past
      e.written ≤ (call.run e).state.written ∧
      ∃ warned, (∀ event ∈ warned, event.level = .warn) ∧
        (call.run e).state.events.toList = e.events.toList ++ warned ++ call.aborted e) ∧
    (∀ calls : List (Call σ),
      (Encoder.after { sink, options } calls).events.toList.filter (·.level = .debug) =
        Encoder.aborts { sink, options } calls) ∧
    (∀ c, (Reader.value c).state.events = c.events ++ Reader.reports (Reader.value c).outcome) ∧
    ∀ bs, (Value.decoded bs).state.events = Reader.reports (Value.ofBytes bs) ∧
      ∀ event ∈ (Value.decoded bs).state.events, event.level = .trace := by
  have ready : ({ sink, options } : Encoder σ).IsReady options := ⟨rfl, rfl⟩
  refine ⟨?_, ?_, Reader.events_value, ?_⟩
  · intro past call e
    have outermost : e.depth = 0 := (ready.after past).1
    exact ⟨Encoder.written_le_of_call outermost call, Encoder.events_of_call outermost call⟩
  · exact Encoder.debug_events_of_session ready
  · intro bs
    refine ⟨Reader.events_decoded bs, ?_⟩
    intro event mem
    rw [Reader.events_decoded] at mem
    exact Reader.level_of_mem_reports mem

end PackStream
