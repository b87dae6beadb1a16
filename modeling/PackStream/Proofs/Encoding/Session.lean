import PackStream.Proofs.Encoding.Traversal

/-!
# Sessions

One encoder can be called again and again, whether or not the calls succeed, and its sink can be
changed between them. Whatever happened before, it stands in no aggregate and has its old options,
and the next call does what it would do on a new encoder over the same sink.

Main statement: `Encoder.call_after`.
-/

set_option autoImplicit false

namespace PackStream

/-- One call of an encoder over sinks of some type, or a change of its sink from outside. -/
inductive Call (σ : Type) : Type 1 where
  | value (v : Value)
  | null
  | boolean (b : Bool)
  | int (i : Int64)
  | uint (n : UInt64)
  | float (x : Binary64)
  | string (s : String)
  | list (items : List Value)
  | dict (d : Dict)
  | record {α : Type} [Record α] (record : α)
  | changeSink (f : σ → σ)

variable {σ : Type} [Writer σ]

/-- Makes a call. -/
def Call.run : Call σ → EncodeOn σ Unit
  | value v => Encoder.encode v
  | null => Encoder.encodeNull
  | boolean b => Encoder.encodeBoolean b
  | int i => Encoder.encodeInt i
  | uint n => Encoder.encodeUInt n
  | float x => Encoder.encodeFloat x
  | string s => Encoder.encodeString s
  | list items => Encoder.encodeList items
  | dict d => Encoder.encodeDict d
  | record r => Encoder.encodeRecord r
  | changeSink f => Encoder.modifySink f

/-- Any other call than one that encodes a value as a whole writes a value without a report, is
refused at once or changes the sink. -/
theorem Call.run_eq (call : Call σ) (parts : ¬ ∃ v, call = value v) :
    (∃ v, call.run = Encoder.encodeValue v) ∨ (∃ error, call.run = throw error) ∨
      ∃ f, call.run = Encoder.modifySink f := by
  cases call with
  | value v => exact absurd ⟨v, rfl⟩ parts
  | null => exact .inl ⟨.null, rfl⟩
  | boolean b => exact .inl ⟨.boolean b, rfl⟩
  | int i => exact .inl ⟨.integer i, rfl⟩
  | uint n =>
    rw [run, Encoder.encodeUInt]
    split
    · exact .inl ⟨.integer _, rfl⟩
    · exact .inr (.inl ⟨_, rfl⟩)
  | float x => exact .inl ⟨.float x, rfl⟩
  | string s => exact .inl ⟨.string s, rfl⟩
  | list | dict | record => exact .inl ⟨_, rfl⟩
  | changeSink f => exact .inr (.inr ⟨f, rfl⟩)

namespace Encoder

/-- The encoder after calls one after the other, each made whether or not those before it failed. -/
def after (e : Encoder σ) (calls : List (Call σ)) : Encoder σ :=
  calls.foldl (fun e call => (call.run e).state) e

/-! ## One call -/

/-- A new encoder with the same options over the same sink. -/
def renewed (e : Encoder σ) : Encoder σ :=
  { sink := e.sink, options := e.options }

/-- Steps add to an encoder what they come to on a new one. -/
theorem performAll_eq_renewed (steps : List Step) (e : Encoder σ) :
    performAll steps e = (performAll steps e.renewed).mapState e.resumed := by
  have resumed_twice : (fun d => e.resumed (e.renewed.resumed d)) = e.resumed := by
    funext d
    simp only [resumed, renewed, Nat.zero_add, Array.empty_append]
  rw [performAll_eq_mapState steps e, performAll_eq_mapState steps e.renewed,
    EStateM.Result.mapState_mapState, resumed_twice]
  rfl

/-- Whether an operation adds to every encoder that stands in no aggregate what it comes to on a new
one. -/
def Resumes (op : EncodeOn σ Unit) : Prop :=
  ∀ e : Encoder σ, e.depth = 0 → op e = (op e.renewed).mapState e.resumed

theorem CarriesOut.resumes {op : EncodeOn σ Unit} {steps : Options → Nat → List Step}
    (h : CarriesOut op steps) : Resumes op := by
  intro e outermost
  rw [h e, h e.renewed, performAll_eq_renewed, outermost]
  rfl

theorem resumes_encode (v : Value) : Resumes (encode v : EncodeOn σ Unit) := by
  intro e outermost
  have steps : v.steps e.renewed.options e.renewed.depth = v.steps e.options 0 := rfl
  rw [encode_eq, encode_eq, performAll_eq_renewed, outermost, steps]
  cases performAll (v.steps e.options 0) e.renewed with
  | ok u d => rfl
  | error error d =>
    simp [EStateM.Result.mapState, resumed, renewed]

theorem resumes_call (call : Call σ) : Resumes call.run := by
  by_cases whole : ∃ v, call = .value v
  · obtain ⟨v, rfl⟩ := whole
    exact resumes_encode v
  · obtain ⟨v, same⟩ | ⟨error, same⟩ | ⟨f, same⟩ := call.run_eq whole
    · rw [same]
      exact (carriesOut_value v).resumes
    · have refused : CarriesOut (throw error : EncodeOn σ Unit) fun _ _ => [.refuse error] :=
        fun _ => rfl
      rw [same]
      exact refused.resumes
    · rw [same]
      intro e _
      show EStateM.Result.ok () _ = .ok () _
      simp [resumed]

/-! ## All calls -/

/-- An encoder that stands in no aggregate and has the given options. -/
def IsReady (options : Options) (e : Encoder σ) : Prop :=
  e.depth = 0 ∧ e.options = options

theorem IsReady.run {options : Options} {e : Encoder σ} (h : e.IsReady options)
    (call : Call σ) : (call.run e).state.IsReady options := by
  rw [resumes_call call e h.1, EStateM.Result.state_mapState]
  exact h

theorem IsReady.after {options : Options} {e : Encoder σ} (h : e.IsReady options)
    (calls : List (Call σ)) : (e.after calls).IsReady options := by
  induction calls generalizing e with
  | nil => exact h
  | cons call calls ih => exact ih (h.run call)

/-- Between calls an encoder stands in no aggregate and has the options it began with. The next call
has the outcome and the effect on the sink that it has on a new encoder over the same sink, and the
count of bytes grows as much as it does there; a change of the sink leaves the count as it is. -/
theorem call_after (options : Options) (sink : σ) (past : List (Call σ)) (call : Call σ) :
    let e : Encoder σ := after { sink, options } past
    let fresh : Encoder σ := { sink := e.sink, options }
    e.depth = 0 ∧ e.options = options ∧
      e.written ≤ (call.run e).state.written ∧
      (∀ f : σ → σ, ((Call.changeSink f).run e).state.written = e.written) ∧
      (call.run e).outcome = (call.run fresh).outcome ∧
      (call.run e).state.sink = (call.run fresh).state.sink ∧
      (call.run e).state.written = e.written + (call.run fresh).state.written := by
  intro e fresh
  have ready : e.IsReady options := IsReady.after ⟨rfl, rfl⟩ past
  obtain ⟨outermost, same⟩ := ready
  have renewed_eq : e.renewed = fresh := by rw [renewed, same]
  rw [resumes_call call e outermost, renewed_eq, EStateM.Result.state_mapState,
    EStateM.Result.outcome_mapState]
  exact ⟨outermost, same, Nat.le_add_right _ _, fun _ => rfl, rfl, rfl, rfl⟩

end Encoder

end PackStream
