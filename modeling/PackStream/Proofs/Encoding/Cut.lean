import PackStream.Proofs.Encoding.Run

/-!
# Sinks that run full

A sink that runs full cuts the encoding of a value short and changes nothing else: it holds the
beginning of the encoding that it had room for, and the encoder has counted the writes that were
completed.

Main statement: `Encoder.encode_cut`.
-/

set_option autoImplicit false

namespace PackStream

/-! ## Pieces -/

/-- A writer that takes everything and keeps the pieces apart that it is handed. -/
structure Log where
  pieces : List Bytes := []

instance : Writer Log where
  writeAll piece log := .ok () { pieces := log.pieces ++ [piece] }

/-- Of pieces handed to a sink one after the other, those in `done` are taken, and `failed` is the
first that is not, for a reason. -/
inductive Sink.StopsAt :
    (s : Sink) → (pieces done : List Bytes) → (failed : Bytes) → (reason : String) → Sink → Prop
  | here {s t : Sink} {piece : Bytes} {later : List Bytes} {reason : String}
      (fails : Writer.writeAll piece s = .error reason t) :
      StopsAt s (piece :: later) [] piece reason t
  | later {s t u : Sink} {piece : Bytes} {pieces done : List Bytes} {failed : Bytes}
      {reason : String} (taken : Writer.writeAll piece s = .ok () t)
      (rest : StopsAt t pieces done failed reason u) :
      StopsAt s (piece :: pieces) (piece :: done) failed reason u

/-- Where pieces stop, a sink has added those that were taken and a strict beginning of the one that
was not. -/
theorem Sink.StopsAt.bytes {s t : Sink} {pieces done : List Bytes} {failed : Bytes}
    {reason : String} (h : s.StopsAt pieces done failed reason t) :
    ∃ k < failed.length, t.bytes.toList = s.bytes.toList ++ (done.flatten ++ failed.take k) := by
  induction h with
  | here fails => exact bytes_of_writeAll_error fails
  | later taken _ ih =>
    obtain ⟨k, hk, bytes⟩ := ih
    refine ⟨k, hk, ?_⟩
    rw [bytes, bytes_of_writeAll_ok taken, List.flatten_cons]
    simp only [List.append_assoc]

namespace Script

/-- The byte strings that steps hand over one by one before the first refusal. -/
def pieces : List Step → List Bytes
  | [] => []
  | .write bs :: steps => bs :: pieces steps
  | .notice _ :: steps => pieces steps
  | .refuse _ :: _ => []

end Script

namespace Encoder

/-- On a log, steps leave their pieces. -/
theorem pieces_of_performAll (steps : List Step) (e : Encoder Log) :
    (performAll steps e).state.sink.pieces = e.sink.pieces ++ Script.pieces steps := by
  induction steps generalizing e with
  | nil => exact (List.append_nil _).symm
  | cons step steps ih =>
    cases step with
    | write bs =>
      have rest := ih { e with
        sink := { pieces := e.sink.pieces ++ [bs] }, written := e.written + bs.length }
      rw [List.append_assoc] at rest
      exact rest
    | notice event => exact ih { e with events := e.events.push event }
    | refuse error => exact (List.append_nil _).symm

/-! ## Runs on a sink without enough room -/

theorem write_of_not_fits {e : Encoder} (steady : e.sink.Steady) {bs : Bytes}
    (not_fits : ¬ e.sink.Fits bs.length) :
    ∃ (reason : String) (d : Encoder), write bs e = .error (.sinkFailure reason) d ∧
      e.sink.writeAll bs = .error reason d.sink ∧
      d.sink.bytes.toList = e.sink.bytes.toList ++ e.sink.fitting bs ∧ d.written = e.written := by
  obtain ⟨sink, options, depth, written, events⟩ := e
  rcases Sink.writeAll_cases steady bs with ⟨fits, -⟩ | ⟨-, reason, t, failed, bytes⟩
  · exact absurd fits not_fits
  · refine ⟨reason, { sink := t, options, depth, written, events }, ?_, failed, bytes, rfl⟩
    simp only [write, Writer.writeAll, failed]

/-- On a steady sink without room for their output, steps add what of it fits and fail in the write
that does not. -/
theorem performAll_of_not_fits {e : Encoder} (steady : e.sink.Steady) (steps : List Step)
    (not_fits : ¬ e.sink.Fits (Script.output steps).length) :
    ∃ (done : List Bytes) (failed : Bytes) (reason : String) (d : Encoder),
      performAll steps e = .error (.sinkFailure reason) d ∧
      e.sink.StopsAt (Script.pieces steps) done failed reason d.sink ∧
      d.sink.bytes.toList = e.sink.bytes.toList ++ e.sink.fitting (Script.output steps) ∧
      d.written = e.written + done.flatten.length := by
  induction steps generalizing e with
  | nil => exact absurd (fun _ _ => Nat.zero_le _) not_fits
  | cons step steps ih =>
    cases step with
    | write bs =>
      rw [performAll_cons, perform, Script.output]
      rw [Script.output, List.length_append] at not_fits
      by_cases first : e.sink.Fits bs.length
      · obtain ⟨c, step, taken, steady', bytes, added, written⟩ := write_of_fits steady first
        have rest := mt (Sink.fits_append_iff added first _).1 not_fits
        obtain ⟨done, failed, reason, d, run, stops, bytes', written'⟩ := ih steady' rest
        refine ⟨bs :: done, failed, reason, d, ?_, .later taken stops, ?_, ?_⟩
        · rw [step]
          exact run
        · rw [bytes', bytes, Sink.fitting_append added first, List.append_assoc]
        · rw [written', written, List.flatten_cons, List.length_append, Nat.add_assoc]
      · obtain ⟨reason, d, step, failed, bytes, written⟩ := write_of_not_fits steady first
        refine ⟨[], bs, reason, d, ?_, .here failed, ?_, written⟩
        · rw [step]
        · rw [bytes, Sink.fitting_append_of_not_fits first]
    | notice event =>
      obtain ⟨sink, options, depth, written, events⟩ := e
      exact ih (e := { sink, options, depth, written, events := events.push event }) steady
        not_fits
    | refuse error => exact absurd (fun _ _ => Nat.zero_le _) not_fits

/-! ## Values -/

theorem encode_of_fits {v : Value} {e : Encoder} (steady : e.sink.Steady)
    (fits : e.sink.Fits (Script.output (v.steps e.options e.depth)).length) :
    (encode v e).outcome = (match Script.refusal? (v.steps e.options e.depth) with
        | none => .ok ()
        | some error => .error error) ∧
      (encode v e).state.sink.bytes.toList =
        e.sink.bytes.toList ++ Script.output (v.steps e.options e.depth) ∧
      (encode v e).state.written =
        e.written + (Script.output (v.steps e.options e.depth)).length := by
  obtain ⟨outcome, sink, written⟩ := encode_same v e
  obtain ⟨d, run, bytes, count⟩ := performAll_of_fits steady _ fits
  rw [outcome, sink, written, run]
  cases Script.refusal? (v.steps e.options e.depth) with
  | none => exact ⟨rfl, bytes, count⟩
  | some error => exact ⟨rfl, bytes, count⟩

theorem encode_of_not_fits {v : Value} {e : Encoder} (steady : e.sink.Steady)
    (not_fits : ¬ e.sink.Fits (Script.output (v.steps e.options e.depth)).length) :
    ∃ (done : List Bytes) (failed : Bytes) (reason : String),
      e.sink.StopsAt (Script.pieces (v.steps e.options e.depth)) done failed reason
        (encode v e).state.sink ∧
      (encode v e).outcome = .error (.sinkFailure reason) ∧
      (encode v e).state.sink.bytes.toList =
        e.sink.bytes.toList ++ e.sink.fitting (Script.output (v.steps e.options e.depth)) ∧
      (encode v e).state.written = e.written + done.flatten.length := by
  obtain ⟨outcome, sink, written⟩ := encode_same v e
  obtain ⟨done, failed, reason, d, run, stops, bytes, count⟩ :=
    performAll_of_not_fits steady _ not_fits
  rw [outcome, sink, written, run]
  exact ⟨done, failed, reason, stops, rfl, bytes, count⟩

/-- The encoder over another sink. -/
def writingTo {σ τ : Type} (e : Encoder σ) (sink : τ) : Encoder τ :=
  { sink, options := e.options, depth := e.depth, written := e.written, events := e.events }

/-- Let `bs` be what a value adds to an unlimited sink. To any other steady sink the value adds
as much of `bs` as there is room for. If there is room for all of `bs`, the outcome is
the same and the count of bytes grows by the length of `bs`. Otherwise the sink failed in one of the
pieces that the value is written in, and the count grows by the length of those before it. -/
theorem encode_cut {v : Value} {e : Encoder} {plain : Sink} (steady : e.sink.Steady)
    (unlimited : plain.TakesAll) :
    let whole := encode v (e.writingTo plain)
    let cut := encode v e
    ∃ bs : Bytes, whole.state.sink.bytes.toList = plain.bytes.toList ++ bs ∧
      cut.state.sink.bytes.toList = e.sink.bytes.toList ++ e.sink.fitting bs ∧
      (e.sink.Fits bs.length →
        cut.outcome = whole.outcome ∧ cut.state.written = e.written + bs.length) ∧
      (¬ e.sink.Fits bs.length →
        ∃ (done : List Bytes) (failed : Bytes) (reason : String),
          e.sink.StopsAt (encode v (e.writingTo ({} : Log))).state.sink.pieces done failed reason
            cut.state.sink ∧
          cut.outcome = .error (.sinkFailure reason) ∧
          cut.state.written = e.written + done.flatten.length ∧
          done.flatten.length ≤ (e.sink.fitting bs).length ∧
          (e.sink.fitting bs).length < done.flatten.length + failed.length) := by
  intro whole cut
  have pieces : (encode v (e.writingTo ({} : Log))).state.sink.pieces =
      Script.pieces (v.steps e.options e.depth) := by
    rw [(encode_same v (e.writingTo ({} : Log))).2.1, pieces_of_performAll]
    rfl
  obtain ⟨outcome', bytes', -⟩ :=
    encode_of_fits (v := v) (e := e.writingTo plain) unlimited.2 (unlimited.fits _)
  refine ⟨Script.output (v.steps e.options e.depth), bytes', ?_⟩
  by_cases fits : e.sink.Fits (Script.output (v.steps e.options e.depth)).length
  · obtain ⟨outcome, bytes, written⟩ := encode_of_fits steady fits
    refine ⟨?_, ?_, absurd fits⟩
    · rw [Sink.fitting_of_fits fits]
      exact bytes
    · intro _
      exact ⟨outcome.trans outcome'.symm, written⟩
  · obtain ⟨done, failed, reason, stops, outcome, bytes, written⟩ := encode_of_not_fits steady fits
    obtain ⟨k, short, added⟩ := stops.bytes
    rw [bytes, List.append_cancel_left_eq] at added
    have length := congrArg List.length added
    rw [List.length_append, List.length_take] at length
    refine ⟨bytes, fun h => absurd h fits, ?_⟩
    intro _
    rw [pieces]
    exact ⟨done, failed, reason, stops, outcome, written, by omega, by omega⟩

/-- A sink that takes two bytes in every other call and is full inside the string. -/
theorem encode_cut_shortSink :
    let v : Value := .list [.string "abc", .integer 1]
    let e : Encoder := { sink := { limit := some 3, chunk := some 2, interrupts := true } }
    let plain : Sink := {}
    e.sink.Steady ∧ plain.TakesAll ∧
      (encode v (e.writingTo plain)).state.sink.bytes.toList =
        [0x92, 0x83, 0x61, 0x62, 0x63, 0x01] ∧
      (encode v e).state.sink.bytes.toList = [0x92, 0x83, 0x61] ∧
      ∃ reason, (encode v e).outcome = .error (.sinkFailure reason) := by
  intro v e plain
  have steady : e.sink.Steady := nofun
  have unlimited : plain.TakesAll := ⟨rfl, nofun⟩
  have all : (encode v (e.writingTo plain)).state.sink.bytes.toList =
      [0x92, 0x83, 0x61, 0x62, 0x63, 0x01] :=
    (encode_of_fits (e := e.writingTo plain) unlimited.2 (unlimited.fits _)).2.1
  obtain ⟨bs, whole, cut, -, full⟩ := encode_cut (v := v) steady unlimited
  cases whole.symm.trans all
  have not_fits : ¬ e.sink.Fits 6 := fun h => absurd (h 3 rfl) (by decide)
  obtain ⟨done, failed, reason, -, outcome, -⟩ := full not_fits
  exact ⟨steady, unlimited, all, cut, reason, outcome⟩

end Encoder

end PackStream
