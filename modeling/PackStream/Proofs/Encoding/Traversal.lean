import PackStream.Encoding.Encoder
import PackStream.Proofs.Outcome

/-!
# Walking through a value

An encoder that walks through a value, counting the aggregates it stands in, does exactly what the
script of the value says, and stands where it stood before, however the walk ends. What steps do to
a sink does not depend on anything else in the encoder.

Main statements: `performAll_eq_mapState` and `encodeValue_eq`.
-/

set_option autoImplicit false

namespace PackStream

/-- The steps of a value's encoding inside `depth` aggregates. -/
def Value.steps (options : Options) (depth : Nat) (v : Value) : List Step :=
  (Script.value options depth v #[]).toList

/-! ## Scripts in parts -/

namespace Script

/-- What stands after the header of an aggregate: its content, or a refusal to nest deeper. -/
def content (options : Options) (depth : Nat) (steps : List Step) : List Step :=
  match depthExceeded? options depth with
  | some limit => [.refuse (.nestingTooDeep limit)]
  | none => steps

theorem steps_list (options : Options) (depth : Nat) (vs : List Value) :
    (value options depth (.list vs) #[]).toList =
      (header #[] options .list vs.length).toList ++
        content options depth (items options (depth + 1) vs #[]).toList := by
  rw [value, content]
  cases depthExceeded? options depth with
  | some limit => exact Array.toList_push
  | none => exact toList_items _ _ _ _

theorem steps_dict (options : Options) (depth : Nat) (es : List (String × Value)) :
    (value options depth (.dict es) #[]).toList =
      (header #[] options .dict es.length).toList ++
        content options depth (entries options (depth + 1) es #[]).toList := by
  rw [value, content]
  cases depthExceeded? options depth with
  | some limit => exact Array.toList_push
  | none => exact toList_entries _ _ _ _

theorem steps_struct (options : Options) (depth : Nat) (signature : UInt8) (vs : List Value) :
    (value options depth (.struct signature vs) #[]).toList =
      (structHeader #[] options signature vs.length).toList ++
        content options depth (items options (depth + 1) vs #[]).toList := by
  rw [value, content]
  cases depthExceeded? options depth with
  | some limit => exact Array.toList_push
  | none => exact toList_items _ _ _ _

theorem steps_items_cons (options : Options) (depth : Nat) (v : Value) (vs : List Value) :
    (items options depth (v :: vs) #[]).toList =
      (value options depth v #[]).toList ++ (items options depth vs #[]).toList := by
  rw [items, toList_items]

theorem steps_entries_cons (options : Options) (depth : Nat) (k : String) (v : Value)
    (es : List (String × Value)) :
    (entries options depth ((k, v) :: es) #[]).toList =
      (string #[] options k).toList ++ (value options depth v #[]).toList ++
        (entries options depth es #[]).toList := by
  rw [entries, toList_entries, toList_value]

theorem steps_string (options : Options) (s : String) :
    (string #[] options s).toList =
      (header #[] options .string s.utf8ByteSize).toList ++ [.write (Utf8.encode s)] :=
  Array.toList_push

end Script

namespace Encoder

variable {σ : Type}

/-! ## Steps see the sink alone -/

/-- The encoder in which `d`, which began from nothing, goes on where `past` stopped. -/
def resumed (past d : Encoder σ) : Encoder σ :=
  { sink := d.sink
    options := past.options
    depth := past.depth
    written := past.written + d.written
    events := past.events ++ d.events }

theorem resumed_resumed (past mid d : Encoder σ) :
    past.resumed (mid.resumed d) = (past.resumed mid).resumed d := by
  simp only [resumed, Nat.add_assoc, Array.append_assoc]

/-- What an operation inside one more aggregate comes to. -/
theorem nested_apply (op : EncodeOn σ Unit) (e : Encoder σ) :
    nested op e = match Script.depthExceeded? e.options e.depth with
      | some limit => .error (.nestingTooDeep limit) e
      | none => (op { e with depth := e.depth + 1 }).mapState fun d =>
          { d with depth := d.depth - 1 } := by
  obtain ⟨sink, options, depth, written, events⟩ := e
  rw [nested, EStateM.bind_apply]
  simp only [enter]
  cases Script.depthExceeded? options depth with
  | some limit => rfl
  | none =>
    simp only [tryFinally, tryFinally', Functor.map, EStateM.map]
    cases op _ <;> rfl

variable [Writer σ]

/-- One step does the same to a sink on every encoder. -/
theorem perform_eq_mapState (step : Step) (e : Encoder σ) :
    perform step e = (perform step { sink := e.sink }).mapState e.resumed := by
  obtain ⟨sink, options, depth, written, events⟩ := e
  cases step with
  | write bytes =>
    simp only [perform, write]
    cases Writer.writeAll bytes sink with
    | ok u sink => simp [EStateM.Result.mapState, resumed]
    | error reason sink => simp [EStateM.Result.mapState, resumed]
  | notice event => simp [perform, report, EStateM.Result.mapState, resumed]
  | refuse error =>
    show EStateM.Result.error error _ = .error error _
    simp [resumed]

theorem performAll_cons (step : Step) (steps : List Step) (e : Encoder σ) :
    performAll (step :: steps) e = match perform step e with
      | .ok _ d => performAll steps d
      | .error error d => .error error d := by
  rw [performAll, EStateM.bind_apply]
  cases perform step e <;> rfl

/-- Steps do the same to a sink on every encoder. -/
theorem performAll_eq_mapState (steps : List Step) (e : Encoder σ) :
    performAll steps e = (performAll steps { sink := e.sink }).mapState e.resumed := by
  induction steps generalizing e with
  | nil =>
    show EStateM.Result.ok () e = .ok () _
    simp [resumed]
  | cons step steps ih =>
    rw [performAll_cons, performAll_cons, perform_eq_mapState step e]
    cases perform step { sink := e.sink } with
    | error error d => rfl
    | ok u d =>
      show performAll steps (e.resumed d) = (performAll steps d).mapState e.resumed
      rw [ih d, ih (e.resumed d), EStateM.Result.mapState_mapState]
      simp only [resumed_resumed]
      rfl

theorem performAll_append (xs ys : List Step) (e : Encoder σ) :
    performAll (xs ++ ys) e = match performAll xs e with
      | .ok _ d => performAll ys d
      | .error error d => .error error d := by
  induction xs generalizing e with
  | nil => rfl
  | cons x xs ih =>
    rw [List.cons_append, performAll_cons, performAll_cons]
    cases perform x e with
    | ok u d => exact ih d
    | error error d => rfl

/-- Steps leave the options and the place in the value as they are. -/
theorem options_depth_of_performAll {steps : List Step} {e d : Encoder σ} {u : Unit}
    (h : performAll steps e = .ok u d) : d.options = e.options ∧ d.depth = e.depth := by
  rw [performAll_eq_mapState] at h
  cases done : performAll steps { sink := e.sink } with
  | ok u' c =>
    rw [done] at h
    cases h
    exact ⟨rfl, rfl⟩
  | error error c =>
    rw [done] at h
    cases h

/-! ## Operations that carry out steps -/

/-- On every encoder the operation does what steps do that depend on the options and on how many
aggregates it stands in. -/
def CarriesOut (op : EncodeOn σ Unit) (steps : Options → Nat → List Step) : Prop :=
  ∀ e : Encoder σ, op e = performAll (steps e.options e.depth) e

theorem carriesOut_run (build : Options → Script → Script) :
    CarriesOut (run build : EncodeOn σ Unit) fun options _ => (build options #[]).toList :=
  fun _ => rfl

variable {op next : EncodeOn σ Unit} {xs ys : Options → Nat → List Step}

theorem CarriesOut.bind (first : CarriesOut op xs) (second : CarriesOut next ys) :
    CarriesOut (op >>= fun _ => next) fun options depth =>
      xs options depth ++ ys options depth := by
  intro e
  rw [EStateM.bind_apply, performAll_append, first]
  cases done : performAll (xs e.options e.depth) e with
  | error error d => rfl
  | ok u d =>
    obtain ⟨options, depth⟩ := options_depth_of_performAll done
    rw [← options, ← depth]
    exact second d

theorem CarriesOut.nested (inside : CarriesOut op xs) :
    CarriesOut (nested op) fun options depth =>
      Script.content options depth (xs options (depth + 1)) := by
  intro e
  show _ = performAll (Script.content e.options e.depth (xs e.options (e.depth + 1))) e
  rw [nested_apply, Script.content]
  cases Script.depthExceeded? e.options e.depth with
  | some limit => rfl
  | none =>
    dsimp only
    -- What the steps do to the sink is the same at both depths.
    rw [inside, performAll_eq_mapState, EStateM.Result.mapState_mapState,
      performAll_eq_mapState _ e]
    rfl

/-! ## The walk carries out the script -/

mutual

theorem carriesOut_value (v : Value) :
    CarriesOut (encodeValue v : EncodeOn σ Unit) fun options depth =>
      (Script.value options depth v #[]).toList := by
  cases v with
  | null | boolean | integer | float | string => exact fun _ => rfl
  | list vs =>
    simp only [Script.steps_list, encodeValue]
    exact (carriesOut_run _).bind (carriesOut_items vs).nested
  | dict es =>
    simp only [Script.steps_dict, encodeValue]
    exact (carriesOut_run _).bind (carriesOut_entries es).nested
  | struct signature vs =>
    simp only [Script.steps_struct, encodeValue]
    exact (carriesOut_run _).bind (carriesOut_items vs).nested

theorem carriesOut_items (vs : List Value) :
    CarriesOut (encodeItems vs : EncodeOn σ Unit) fun options depth =>
      (Script.items options depth vs #[]).toList := by
  cases vs with
  | nil => exact fun _ => rfl
  | cons v vs =>
    simp only [Script.steps_items_cons, encodeItems]
    exact (carriesOut_value v).bind (carriesOut_items vs)

theorem carriesOut_entries (es : List (String × Value)) :
    CarriesOut (encodeEntries es : EncodeOn σ Unit) fun options depth =>
      (Script.entries options depth es #[]).toList := by
  match es with
  | [] => exact fun _ => rfl
  | (k, v) :: es =>
    simp only [Script.steps_entries_cons, encodeEntries, List.append_assoc]
    have key : CarriesOut (encodeString k : EncodeOn σ Unit) _ := carriesOut_run _
    exact key.bind ((carriesOut_value v).bind (carriesOut_entries es))

end

/-- Writing a value carries out its steps. -/
theorem encodeValue_eq (v : Value) (e : Encoder σ) :
    encodeValue v e = performAll (v.steps e.options e.depth) e :=
  carriesOut_value v e

/-- Encoding a value carries out its steps, and reports the failure if they fail. -/
theorem encode_eq (v : Value) (e : Encoder σ) :
    encode v e = match performAll (v.steps e.options e.depth) e with
      | .ok _ d => .ok () d
      | .error error d =>
        let event := .encodeAborted v.kind error.message (d.written - e.written)
        .error error { d with events := d.events.push event } := by
  show EStateM.tryCatch (encodeValue v) _ e = _
  unfold EStateM.tryCatch
  rw [encodeValue_eq]
  cases performAll (v.steps e.options e.depth) e with
  | ok u d => rfl
  | error error d => rfl

/-- The report of a failure touches neither the outcome nor the sink nor the count of bytes. -/
theorem encode_same (v : Value) (e : Encoder σ) :
    (encode v e).outcome = (performAll (v.steps e.options e.depth) e).outcome ∧
      (encode v e).state.sink = (performAll (v.steps e.options e.depth) e).state.sink ∧
      (encode v e).state.written = (performAll (v.steps e.options e.depth) e).state.written := by
  rw [encode_eq]
  cases performAll (v.steps e.options e.depth) e with
  | ok u d => exact ⟨rfl, rfl, rfl⟩
  | error error d => exact ⟨rfl, rfl, rfl⟩

end Encoder

end PackStream
