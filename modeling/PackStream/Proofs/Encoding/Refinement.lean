import PackStream.Proofs.Encoding.Congruence
import PackStream.Proofs.Encoding.Cut
import PackStream.Proofs.Encoding.Session

/-!
# Encoders write the reference encoding

Whatever an encoder has been used for before, a call that succeeds adds to its sink the reference
encoding of the value and nothing else, and counts its bytes.

Main statement: `Encoder.encode_eq_reference`.
-/

set_option autoImplicit false

namespace PackStream

namespace Encoder

/-! ## Runs that succeed -/

theorem write_of_ok {bs : Bytes} {e d : Encoder} (h : write bs e = .ok () d) :
    d.sink.bytes.toList = e.sink.bytes.toList ++ bs ∧ d.written = e.written + bs.length := by
  obtain ⟨sink, options, depth, written, events⟩ := e
  rw [write] at h
  split at h
  · rename_i taken
    cases h
    exact ⟨Sink.bytes_of_writeAll_ok taken, rfl⟩
  · cases h

/-- Steps that succeed, whatever the sink, contain no refusal and add all they hand over. -/
theorem performAll_of_ok {steps : List Step} {e d : Encoder} (h : performAll steps e = .ok () d) :
    Script.refusal? steps = none ∧
      d.sink.bytes.toList = e.sink.bytes.toList ++ Script.output steps ∧
      d.written = e.written + (Script.output steps).length := by
  induction steps generalizing e with
  | nil =>
    cases h
    exact ⟨rfl, (List.append_nil _).symm, rfl⟩
  | cons step steps ih =>
    rw [performAll_cons] at h
    cases step with
    | refuse error => cases h
    | notice event =>
      obtain ⟨sink, options, depth, written, events⟩ := e
      exact ih (e := { sink, options, depth, written, events := events.push event }) h
    | write bs =>
      rw [perform] at h
      cases first : write bs e with
      | error error c =>
        rw [first] at h
        cases h
      | ok u c =>
        rw [first] at h
        obtain ⟨bytes, written⟩ := write_of_ok first
        obtain ⟨complete, bytes', written'⟩ := ih h
        refine ⟨complete, ?_, ?_⟩
        · rw [bytes', bytes, Script.output, List.append_assoc]
        · rw [written', written, Script.output, List.length_append, Nat.add_assoc]

theorem encode_of_ok {v : Value} {e : Encoder} (h : (encode v e).outcome = .ok ()) :
    Script.refusal? (v.steps e.options e.depth) = none ∧
      (encode v e).state.sink.bytes.toList = e.sink.bytes.toList ++ v.reference e.options ∧
      (encode v e).state.written = e.written + (v.reference e.options).length := by
  obtain ⟨outcome, sink, written⟩ := encode_same v e
  rw [sink, written]
  rw [outcome] at h
  cases run : performAll (v.steps e.options e.depth) e with
  | error error d =>
    rw [run] at h
    cases h
  | ok u d =>
    obtain ⟨complete, bytes, count⟩ := performAll_of_ok run
    rw [Value.steps, Script.output_value complete] at bytes count
    exact ⟨complete, bytes, count⟩

/-! ## Calls on a used encoder -/

/-- Let an encoder have been called in any way, and its sink changed. If it then encodes a value,
it adds the reference encoding of the value, counts its bytes, and encoding to a byte string yields
just these bytes. On a sink that takes everything it does so whenever encoding to a byte string
succeeds. -/
theorem encode_eq_reference (lengths : LengthForm) (signature : SignaturePlace)
    (depthLimit : Option Nat) (sink : Sink) (past : List (Call Sink)) (v : Value) :
    let options : Options := { lengths, signature, depthLimit }
    let e : Encoder := after { sink, options } past
    let bytes := v.reference { lengths, signature }
    ((encode v e).outcome = .ok () →
      (encode v e).state.sink.bytes.toList = e.sink.bytes.toList ++ bytes ∧
      (encode v e).state.written = e.written + bytes.length ∧
      v.toBytes options = .ok bytes) ∧
    (e.sink.TakesAll → (∃ bs, v.toBytes options = .ok bs) → (encode v e).outcome = .ok ()) := by
  intro options e bytes
  have ready : e.IsReady options := IsReady.after ⟨rfl, rfl⟩ past
  obtain ⟨outermost, same⟩ := ready
  have pure : v.reference options = bytes := by
    apply Value.reference_congr
    · rfl
    · rfl
  have toBytes := v.toBytes_eq options
  constructor
  · intro succeeds
    obtain ⟨complete, added, count⟩ := encode_of_ok succeeds
    rw [same, outermost] at complete
    rw [same] at added count
    rw [complete] at toBytes
    rw [← pure]
    exact ⟨added, count, toBytes.trans (congrArg _ (Script.output_value complete))⟩
  · rintro takesAll ⟨bs, encoded⟩
    obtain ⟨outcome, -⟩ := encode_of_fits (v := v) takesAll.2 (takesAll.fits _)
    rw [outcome, same, outermost]
    cases refused : Script.refusal? (v.steps options 0) with
    | none => rfl
    | some error =>
      rw [refused, encoded] at toBytes
      cases toBytes

/-- A list of 256 items for a legacy peer, after a value that nested too deep. -/
theorem encode_eq_reference_longList :
    let options : Options :=
      { lengths := .lowByte, signature := .beforeHeader, depthLimit := some 2 }
    let past : List (Call Sink) :=
      [.value (.list [.list [.list []]]),
        .changeSink fun _ => { chunk := some 3, interrupts := true }]
    let e : Encoder := after { sink := {}, options } past
    let v : Value := .list (.struct 7 [] :: List.replicate 255 .null)
    let bytes := [0xD5, 0x00, 0x07, 0xB0] ++ List.replicate 255 0xC0
    (encode v e).outcome = .ok () ∧
      (encode v e).state.sink.bytes.toList = e.sink.bytes.toList ++ bytes ∧
      (encode v e).state.written = e.written + bytes.length ∧ v.toBytes options = .ok bytes := by
  intro options past e v bytes
  have takesAll : e.sink.TakesAll := ⟨rfl, nofun⟩
  have encoded : ∃ bs, v.toBytes options = .ok bs := by
    have nodes : v.sizedNodes 0 = [⟨.list, 256, 0⟩, ⟨.struct, 0, 1⟩] := by
      simp [v, Value.sizedNodes, Value.sizedNodesItems, Value.sizedNodesItems_eq_flatMap,
        -List.reduceReplicate]
    have fits : (v.sizedNodes 0).findSome? (SizedNode.offence options) = none := by
      rw [nodes]
      rfl
    exact ⟨_, by rw [v.toBytes_eq_reference, fits]⟩
  have reference : v.reference { lengths := .lowByte, signature := .beforeHeader } = bytes := by
    have header : Reference.header .lowByte .list (255 + 1) = [0xD5, 0x00] := by decide
    have first : (Value.struct 7 []).reference
        { lengths := .lowByte, signature := .beforeHeader } = [0x07, 0xB0] := by decide
    have others : Value.null.reference
        { lengths := .lowByte, signature := .beforeHeader } = [0xC0] := by decide
    rw [Value.reference, Value.referenceItems, Value.referenceItems_eq_flatMap,
      List.flatMap_replicate, List.length_cons, List.length_replicate, first, others,
      List.flatten_replicate_singleton]
    exact congrArg (· ++ _) header
  clear_value bytes
  obtain ⟨added, complete⟩ := encode_eq_reference .lowByte .beforeHeader (some 2) {} past v
  rw [reference] at added
  have succeeds := complete takesAll encoded
  dsimp only [e, options]
  exact ⟨succeeds, added succeeds⟩

end Encoder

end PackStream
