import PackStream.Encoding.Bytes
import PackStream.Proofs.Encoding.Room
import PackStream.Proofs.Encoding.Traversal

/-!
# Running scripts

What a script comes to is settled before any sink is involved: the bytes it hands over up to the
first refusal, and that refusal. On a sink with room for these bytes, running the script adds
exactly them and ends with exactly that refusal.

Main statements: `performAll_of_fits`, for any such sink, and `toBytes_eq`, for a fresh one.
-/

set_option autoImplicit false

namespace PackStream

/-! ## What steps come to -/

namespace Script

/-- The bytes that steps hand over before the first refusal. -/
def output : List Step → Bytes
  | [] => []
  | .write bs :: steps => bs ++ output steps
  | .notice _ :: steps => output steps
  | .refuse _ :: _ => []

/-- The first refusal. -/
def refusal? : List Step → Option EncodeError
  | [] => none
  | .write _ :: steps => refusal? steps
  | .notice _ :: steps => refusal? steps
  | .refuse error :: _ => some error

theorem refusal?_append (xs ys : List Step) :
    refusal? (xs ++ ys) = (refusal? xs).or (refusal? ys) := by
  induction xs with
  | nil => rfl
  | cons x xs ih =>
    cases x with
    | write | notice => exact ih
    | refuse error => rfl

theorem output_append {xs : List Step} (h : refusal? xs = none) (ys : List Step) :
    output (xs ++ ys) = output xs ++ output ys := by
  induction xs with
  | nil => rfl
  | cons x xs ih =>
    cases x with
    | write bs =>
      show bs ++ output (xs ++ ys) = bs ++ output xs ++ output ys
      rw [ih h, List.append_assoc]
    | notice => exact ih h
    | refuse error => cases h

end Script

/-! ## Running them -/

namespace Encoder

/-- How a run ends that is refused for a reason, or not at all. -/
def ending {σ : Type} :
    Option EncodeError → Encoder σ → EStateM.Result EncodeError (Encoder σ) Unit
  | none, e => .ok () e
  | some error, e => .error error e

theorem write_of_fits {e : Encoder} (steady : e.sink.Steady) {bs : Bytes}
    (fits : e.sink.Fits bs.length) :
    ∃ d : Encoder, write bs e = .ok () d ∧ e.sink.writeAll bs = .ok () d.sink ∧ d.sink.Steady ∧
      d.sink.bytes.toList = e.sink.bytes.toList ++ bs ∧
      d.sink.room = e.sink.room.map (· - bs.length) ∧ d.written = e.written + bs.length := by
  obtain ⟨sink, options, depth, written, events⟩ := e
  rcases Sink.writeAll_cases steady bs with ⟨-, t, taken, limit, chunk⟩ | ⟨not_fits, -⟩
  · have bytes := Sink.bytes_of_writeAll_ok taken
    refine ⟨{ sink := t, options, depth, written := written + bs.length, events }, ?_, taken, ?_,
      bytes, Sink.room_of_bytes limit bytes, rfl⟩
    · simp only [write, Writer.writeAll, taken]
    · rwa [Sink.Steady, chunk]
  · exact absurd fits not_fits

/-- On a steady sink with room for their output, steps add it and end with their refusal. -/
theorem performAll_of_fits {e : Encoder} (steady : e.sink.Steady) (steps : List Step)
    (fits : e.sink.Fits (Script.output steps).length) :
    ∃ d : Encoder, performAll steps e = ending (Script.refusal? steps) d ∧
      d.sink.bytes.toList = e.sink.bytes.toList ++ Script.output steps ∧
      d.written = e.written + (Script.output steps).length := by
  induction steps generalizing e with
  | nil => exact ⟨e, rfl, (List.append_nil _).symm, rfl⟩
  | cons step steps ih =>
    cases step with
    | write bs =>
      rw [Script.output, List.length_append] at fits
      have first : e.sink.Fits bs.length := fun r hr => Nat.le_of_add_right_le (fits r hr)
      obtain ⟨c, step, -, steady', bytes, added, written⟩ := write_of_fits steady first
      have rest := (Sink.fits_append_iff added first _).2 fits
      obtain ⟨d, run, bytes', written'⟩ := ih steady' rest
      refine ⟨d, ?_, ?_, ?_⟩
      · rw [performAll_cons, perform, step]
        exact run
      · rw [bytes', bytes, List.append_assoc]
        rfl
      · rw [written', written, Script.output, List.length_append, Nat.add_assoc]
    | notice event =>
      obtain ⟨sink, options, depth, written, events⟩ := e
      exact ih (e := { sink, options, depth, written, events := events.push event }) steady fits
    | refuse error => exact ⟨e, rfl, (List.append_nil _).symm, rfl⟩

/-- A script without refusal succeeds on a steady sink with room for its output. -/
theorem run_of_fits {build : Options → Script → Script} {e : Encoder} (steady : e.sink.Steady)
    (complete : Script.refusal? (build e.options #[]).toList = none)
    (fits : e.sink.Fits (Script.output (build e.options #[]).toList).length) :
    ∃ d : Encoder, run build e = .ok () d ∧
      d.sink.bytes.toList = e.sink.bytes.toList ++ Script.output (build e.options #[]).toList ∧
      d.written = e.written + (Script.output (build e.options #[]).toList).length := by
  obtain ⟨d, done, added⟩ := performAll_of_fits steady _ fits
  rw [complete] at done
  exact ⟨d, (carriesOut_run build e).trans done, added⟩

end Encoder

/-- Encoding to a byte string yields the output of the steps, or their refusal. -/
theorem Value.toBytes_eq (options : Options) (v : Value) :
    v.toBytes options = match Script.refusal? (v.steps options 0) with
      | none => .ok (Script.output (v.steps options 0))
      | some error => .error error := by
  have fresh : ({ sink := {}, options } : Encoder).sink.TakesAll := ⟨rfl, nofun⟩
  obtain ⟨d, run, bytes, -⟩ :=
    Encoder.performAll_of_fits fresh.2 (v.steps options 0) (fresh.fits _)
  rw [toBytes, encoded, Encoder.encode_eq, run]
  cases Script.refusal? (v.steps options 0) with
  | none =>
    show Except.ok d.sink.bytes.toList = _
    rw [bytes]
    rfl
  | some error => rfl

end PackStream
