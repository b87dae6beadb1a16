import PackStream.Proofs.Encoding.Cut
import PackStream.Proofs.Encoding.Reference
import PackStream.Proofs.Encoding.Session

/-!
# Warnings

In low-byte form a size above 255 is written as its last byte alone, and a warning says so. The
warnings of a value are settled by the value and the length form: one for every sized node with such
a size, in the order in which the nodes are written. A call that succeeds reports exactly these, and
one that is stopped reports a beginning of them.

Main statement: `Encoder.warnings_of_encode`.
-/

set_option autoImplicit false

namespace PackStream

/-! ## The warnings of a value -/

/-- The events among others that ask for attention. -/
def Event.warnings (events : List Event) : List Event :=
  events.filter (·.level = .warn)

/-- The warning that the size of a node is written as its last byte. -/
def SizedNode.truncated (node : SizedNode) : Event :=
  .lengthTruncated node.category.family.name node.size (UInt8.ofNat (node.size % 256))

/-- The warnings that a value gives rise to: one for each sized node whose size does not fit into
one byte, if no more is written of it. -/
def Value.warnings (v : Value) : LengthForm → List Event
  | .full => []
  | .lowByte => ((v.sizedNodes 0).filter (255 < ·.size)).map SizedNode.truncated

theorem Value.warnings_warnings (v : Value) (lengths : LengthForm) :
    Event.warnings (v.warnings lengths) = v.warnings lengths := by
  cases lengths with
  | full => rfl
  | lowByte =>
    apply List.filter_eq_self.2
    intro event mem
    obtain ⟨node, -, rfl⟩ := List.mem_map.1 mem
    rfl

/-- What a node contributes to the warnings. -/
def SizedNode.notices (lengths : LengthForm) (node : SizedNode) : List Event :=
  Reference.notices lengths node.category.family node.size

theorem SizedNode.notices_lowByte (node : SizedNode) :
    node.notices .lowByte = if 255 < node.size then [node.truncated] else [] := by
  have byte : UInt8.ofNat (node.size % 256) = UInt8.ofNat node.size := UInt8.ofNat_mod_size
  rw [notices, Reference.notices, truncated, byte]
  by_cases large : 255 < node.size
  · rw [if_pos large, if_neg (Nat.not_le.2 large)]
  · rw [if_neg large, if_pos (Nat.le_of_not_lt large)]

theorem Value.warnings_eq_flatMap (v : Value) (lengths : LengthForm) :
    v.warnings lengths = (v.sizedNodes 0).flatMap (SizedNode.notices lengths) := by
  cases lengths with
  | full => exact (List.flatMap_eq_nil_iff.2 fun _ _ => rfl).symm
  | lowByte =>
    rw [warnings]
    induction v.sizedNodes 0 with
    | nil => rfl
    | cons node nodes ih =>
      rw [List.flatMap_cons, ← ih, SizedNode.notices_lowByte, List.filter_cons]
      by_cases large : 255 < node.size <;> simp [large]

/-! ## The notices in a script -/

namespace Script

/-- What steps give notice of before the first refusal. -/
def notices : List Step → List Event
  | [] => []
  | .write _ :: steps => notices steps
  | .notice event :: steps => event :: notices steps
  | .refuse _ :: _ => []

/-- Steps that are not refused give notice of exactly these events, and others of a beginning of
them. -/
structure Announces (steps : List Step) (events : List Event) : Prop where
  begins : notices steps <+: events
  complete : refusal? steps = none → notices steps = events

theorem notices_append (xs ys : List Step) :
    notices (xs ++ ys) = match refusal? xs with
      | none => notices xs ++ notices ys
      | some _ => notices xs := by
  induction xs with
  | nil => rfl
  | cons x xs ih =>
    cases x with
    | write bs => exact ih
    | notice event =>
      show event :: notices (xs ++ ys) = _
      rw [ih, refusal?]
      cases refusal? xs <;> rfl
    | refuse error => rfl

theorem Announces.append {xs ys : List Step} {es fs : List Event} (first : Announces xs es)
    (second : Announces ys fs) : Announces (xs ++ ys) (es ++ fs) := by
  cases refused : refusal? xs with
  | none =>
    have all := first.complete refused
    constructor
    · rw [notices_append, refused, all]
      exact List.prefix_append_right_inj es |>.2 second.begins
    · intro complete
      rw [refusal?_append, refused, Option.none_or] at complete
      rw [notices_append, refused, all, second.complete complete]
  | some error =>
    constructor
    · rw [notices_append, refused]
      exact first.begins.trans (List.prefix_append es fs)
    · intro complete
      rw [refusal?_append, refused] at complete
      cases complete

/-- What is refused at once gives notice of nothing. -/
theorem Announces.refuse (error : EncodeError) (events : List Event) :
    Announces [.refuse error] events where
  begins := List.nil_prefix
  complete := nofun

theorem Announces.write (bs : Bytes) : Announces [.write bs] [] where
  begins := List.nil_prefix
  complete _ := rfl

theorem notices_of_notices (events : List Event) (bs : Bytes) :
    notices (events.map .notice ++ [.write bs]) = events := by
  induction events with
  | nil => rfl
  | cons event events ih => exact congrArg (event :: ·) ih

theorem announces_header (options : Options) (c : Category) (n depth : Nat) :
    Announces (header #[] options c.family n).toList
      (SizedNode.notices options.lengths ⟨c, n, depth⟩) := by
  by_cases fits : n ≤ c.family.maxSize
  · rw [steps_header_of_fits options fits]
    constructor
    · rw [notices_of_notices]
      exact List.prefix_refl _
    · exact fun _ => notices_of_notices _ _
  · rw [steps_header_of_not_fits options (Nat.lt_of_not_le fits)]
    exact .refuse _ _

theorem announces_structHeader (options : Options) (signature : UInt8) (n depth : Nat) :
    Announces (structHeader #[] options signature n).toList
      (SizedNode.notices options.lengths ⟨.struct, n, depth⟩) := by
  have own := announces_header options .struct n depth
  unfold structHeader
  cases options.signature with
  | afterHeader =>
    dsimp only
    have both := own.append (.write [signature])
    rwa [List.append_nil, ← Array.toList_push] at both
  | beforeHeader =>
    dsimp only
    rw [toList_header]
    exact (Announces.write [signature]).append own

theorem announces_string (options : Options) (s : String) (depth : Nat) :
    Announces (string #[] options s).toList
      (SizedNode.notices options.lengths ⟨.string, s.utf8ByteSize, depth⟩) := by
  rw [steps_string, ← List.append_nil (SizedNode.notices _ _)]
  exact (announces_header options .string _ depth).append (.write _)

/-- Inside one more aggregate the same is announced, or nothing if that is one too many. -/
theorem Announces.content {steps : List Step} {events : List Event} (inner : Announces steps events)
    (options : Options) (depth : Nat) : Announces (content options depth steps) events := by
  unfold Script.content
  cases depthExceeded? options depth with
  | none => exact inner
  | some limit => exact .refuse _ _

mutual

/-- A value gives notice for each of its nodes, in their order. -/
theorem announces_value (options : Options) (depth : Nat) (v : Value) :
    Announces (value options depth v #[]).toList
      ((v.sizedNodes depth).flatMap (SizedNode.notices options.lengths)) := by
  cases v with
  | null => exact .write _
  | boolean b => exact .write _
  | float x => exact (Announces.write _).append (.write _)
  | integer i =>
    rw [value, integer]
    cases (IntWidth.ofInt i.toInt).marker? with
    | none => exact .write _
    | some marker => exact (Announces.write _).append (.write _)
  | string s =>
    rw [value, Value.sizedNodes, List.flatMap_singleton]
    exact announces_string options s depth
  | list vs =>
    rw [steps_list, Value.sizedNodes, List.flatMap_cons]
    have own := announces_header options .list vs.length depth
    exact own.append ((announces_items options (depth + 1) vs).content options depth)
  | dict es =>
    rw [steps_dict, Value.sizedNodes, List.flatMap_cons]
    have own := announces_header options .dict es.length depth
    exact own.append ((announces_entries options (depth + 1) es).content options depth)
  | struct signature vs =>
    rw [steps_struct, Value.sizedNodes, List.flatMap_cons]
    have own := announces_structHeader options signature vs.length depth
    exact own.append ((announces_items options (depth + 1) vs).content options depth)

theorem announces_items (options : Options) (depth : Nat) (vs : List Value) :
    Announces (items options depth vs #[]).toList
      ((Value.sizedNodesItems depth vs).flatMap (SizedNode.notices options.lengths)) := by
  cases vs with
  | nil => exact ⟨List.nil_prefix, fun _ => rfl⟩
  | cons v vs =>
    rw [steps_items_cons, Value.sizedNodesItems, List.flatMap_append]
    exact (announces_value options depth v).append (announces_items options depth vs)

theorem announces_entries (options : Options) (depth : Nat) (es : List (String × Value)) :
    Announces (entries options depth es #[]).toList
      ((Value.sizedNodesEntries depth es).flatMap (SizedNode.notices options.lengths)) := by
  match es with
  | [] => exact ⟨List.nil_prefix, fun _ => rfl⟩
  | (k, v) :: es =>
    rw [steps_entries_cons, Value.sizedNodesEntries, List.flatMap_cons, List.flatMap_append,
      List.append_assoc]
    have key := announces_string options k depth
    have content := announces_value options depth v
    exact key.append (content.append (announces_entries options depth es))

end

end Script

/-- The steps of a value give notice of its warnings. -/
theorem Value.announces_warnings (options : Options) (v : Value) :
    Script.Announces (v.steps options 0) (v.warnings options.lengths) := by
  rw [warnings_eq_flatMap]
  exact Script.announces_value options 0 v

/-! ## The reports of a run -/

/-- A sink takes everything if it does so now and ever after. -/
def Writer.TakesAll {σ : Type} [Writer σ] (s : σ) : Prop :=
  ∃ Good : σ → Prop, Good s ∧ ∀ t bs, Good t → ∃ u, Writer.writeAll bs t = .ok () u ∧ Good u

theorem Writer.TakesAll.writeAll {σ : Type} [Writer σ] {s : σ} (h : TakesAll s) (bs : Bytes) :
    ∃ t, Writer.writeAll bs s = .ok () t ∧ TakesAll t := by
  obtain ⟨Good, good, takes⟩ := h
  obtain ⟨t, taken, good'⟩ := takes s bs good
  exact ⟨t, taken, Good, good', takes⟩

/-- A byte sink without a limit takes everything. -/
theorem Sink.TakesAll.takesAll {s : Sink} (h : s.TakesAll) : Writer.TakesAll s := by
  refine ⟨Sink.TakesAll, h, ?_⟩
  intro t bs unlimited
  rcases Sink.writeAll_cases unlimited.2 bs with ⟨-, u, taken, limit, chunk⟩ | ⟨not_fits, -⟩
  · refine ⟨u, taken, limit.trans unlimited.1, ?_⟩
    rw [Steady, chunk]
    exact unlimited.2
  · exact absurd (unlimited.fits _) not_fits

namespace Encoder

theorem events_of_write {σ : Type} [Writer σ] (bs : Bytes) (e : Encoder σ) :
    (write bs e).state.events = e.events := by
  obtain ⟨sink, options, depth, written, events⟩ := e
  rw [write]
  cases Writer.writeAll bs sink <;> rfl

/-- A run reports a beginning of what its steps give notice of, and all of it if it succeeds; then
no step refused anything. -/
theorem events_of_performAll {σ : Type} [Writer σ] (steps : List Step) (e : Encoder σ) :
    ∃ added, (performAll steps e).state.events.toList = e.events.toList ++ added ∧
      added <+: Script.notices steps ∧
      ((performAll steps e).outcome = .ok () →
        added = Script.notices steps ∧ Script.refusal? steps = none) := by
  induction steps generalizing e with
  | nil => exact ⟨[], (List.append_nil _).symm, List.nil_prefix, fun _ => ⟨rfl, rfl⟩⟩
  | cons step steps ih =>
    cases step with
    | write bs =>
      have same := events_of_write bs e
      rw [performAll_cons, perform]
      cases taken : write bs e with
      | ok u d =>
        rw [taken] at same
        have unchanged : d.events = e.events := same
        rw [← unchanged]
        exact ih d
      | error error d =>
        rw [taken] at same
        refine ⟨[], ?_, List.nil_prefix, ?_⟩
        · rw [List.append_nil]
          exact congrArg Array.toList same
        · intro succeeds
          cases succeeds
    | notice event =>
      obtain ⟨added, events, begins, complete⟩ := ih { e with events := e.events.push event }
      refine ⟨event :: added, ?_, ?_, ?_⟩
      · rw [Array.toList_push, List.append_assoc] at events
        exact events
      · exact (List.prefix_cons_inj event).2 begins
      · intro succeeds
        obtain ⟨all, sound⟩ := complete succeeds
        exact ⟨congrArg (event :: ·) all, sound⟩
    | refuse error =>
      refine ⟨[], (List.append_nil _).symm, List.nil_prefix, ?_⟩
      intro succeeds
      cases succeeds

/-- A run on a sink that takes everything succeeds if no step refuses. -/
theorem outcome_of_takesAll {σ : Type} [Writer σ] {steps : List Step} {e : Encoder σ}
    (takesAll : Writer.TakesAll e.sink) (complete : Script.refusal? steps = none) :
    (performAll steps e).outcome = .ok () := by
  induction steps generalizing e with
  | nil => rfl
  | cons step steps ih =>
    obtain ⟨sink, options, depth, written, events⟩ := e
    cases step with
    | write bs =>
      obtain ⟨t, taken, takesAll'⟩ := takesAll.writeAll bs
      rw [performAll_cons, perform, write]
      simp only [taken]
      exact ih takesAll' complete
    | notice event =>
      exact ih (e := { sink, options, depth, written, events := events.push event }) takesAll
        complete
    | refuse error => cases complete

/-- Let an encoder have been called in any way, and its sink changed. If it then encodes a value,
the warnings that it reports are a beginning of those of the value, wherever the call stops; if it
succeeds, it reports exactly these and nothing else. On a sink that takes everything it succeeds
whenever the value can be encoded under the options. -/
theorem warnings_of_encode {σ : Type} [Writer σ] (options : Options) (sink : σ)
    (past : List (Call σ)) (v : Value) :
    let e : Encoder σ := after { sink, options } past
    (∃ added, (encode v e).state.events.toList = e.events.toList ++ added ∧
      Event.warnings added <+: v.warnings options.lengths ∧
      ((encode v e).outcome = .ok () →
        added = v.warnings options.lengths ∧ Event.warnings added = added)) ∧
    (Writer.TakesAll e.sink → (∃ bs, v.toBytes options = .ok bs) →
      (encode v e).outcome = .ok ()) := by
  intro e
  obtain ⟨outermost, same⟩ : e.IsReady options := IsReady.after ⟨rfl, rfl⟩ past
  constructor
  · have announced := v.announces_warnings options
    obtain ⟨added, events, begins, complete⟩ := events_of_performAll (v.steps options 0) e
    have own := v.warnings_warnings options.lengths
    have warned : Event.warnings added <+: v.warnings options.lengths := by
      rw [← own]
      exact (begins.trans announced.begins).filter _
    rw [encode_eq, same, outermost]
    cases run : performAll (v.steps options 0) e with
    | ok u d =>
      rw [run] at events complete
      refine ⟨added, events, warned, ?_⟩
      intro succeeds
      obtain ⟨all, sound⟩ := complete succeeds
      rw [all, announced.complete sound]
      exact ⟨rfl, own⟩
    | error error d =>
      rw [run] at events
      -- The report of the failure is no warning.
      refine ⟨added ++ [.encodeAborted v.kind error.message (d.written - e.written)], ?_, ?_, nofun⟩
      · show (d.events.push _).toList = _
        rw [Array.toList_push, ← List.append_assoc, ← events]
        rfl
      · rw [Event.warnings, List.filter_append]
        show Event.warnings added ++ [] <+: _
        rwa [List.append_nil]
  · rintro takesAll ⟨bs, encoded⟩
    have complete : Script.refusal? (v.steps options 0) = none := by
      rw [Value.steps, Script.refusal?_value, List.findSome?_eq_none_iff]
      exact (Value.toBytes_eq_ok_iff.1 encoded).1
    rw [(encode_same v e).1, same, outermost]
    exact outcome_of_takesAll takesAll complete

/-- A list of 256 items for a legacy peer, after a value that nested too deep. -/
theorem warnings_of_encode_longList :
    let options : Options := { lengths := .lowByte, depthLimit := some 1 }
    let past : List (Call Sink) :=
      [.value (.list [.list []]), .changeSink fun _ => { chunk := some 3, interrupts := true }]
    let e : Encoder := after { sink := {}, options } past
    let v : Value := .list (List.replicate 256 .null)
    (encode v e).outcome = .ok () ∧
      (encode v e).state.events.toList =
        e.events.toList ++ [.lengthTruncated "list" 256 0] := by
  intro options past e v
  have nodes : v.sizedNodes 0 = [⟨.list, 256, 0⟩] := by
    simp [v, Value.sizedNodes, Value.sizedNodesItems_eq_flatMap, -List.reduceReplicate]
  have encoded : ∃ bs, v.toBytes options = .ok bs := by
    have fits : (v.sizedNodes 0).findSome? (SizedNode.offence options) = none := by
      rw [nodes]
      rfl
    exact ⟨_, by rw [v.toBytes_eq_reference, fits]⟩
  have warned : v.warnings .lowByte = [.lengthTruncated "list" 256 0] := by
    rw [Value.warnings, nodes]
    rfl
  have takesAll : e.sink.TakesAll := ⟨rfl, nofun⟩
  obtain ⟨⟨added, events, -, complete⟩, succeeds⟩ :=
    warnings_of_encode options {} past v
  have outcome := succeeds takesAll.takesAll encoded
  refine ⟨outcome, ?_⟩
  rw [events, (complete outcome).1, warned]

end Encoder

end PackStream
