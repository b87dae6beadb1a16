import PackStream.Proofs.Encoding.Cut
import PackStream.Proofs.Encoding.Form
import PackStream.Proofs.Encoding.Offence
import PackStream.Proofs.Encoding.Refinement
import PackStream.Proofs.Encoding.Session

/-!
# Limits on nesting

Under a limit on how deep aggregates may nest, a value is written as without one, up to the header
of the first aggregate that stands too deep. That header is still written, with the signature if the
aggregate is a structure, and nothing after it.

The encoding of a value is taken apart into what each of its nodes adds, in the order of writing.
The script of the value comes to the same as writing these parts one by one and refusing after a
header at the level below the last one allowed.

Main statements: `Script.sameEffect_value`, and `Encoder.encode_limited` for encoders.
-/

set_option autoImplicit false

namespace PackStream

/-! ## How deep a value nests -/

mutual

/-- How deep aggregates nest in a value: an aggregate is a level above what it contains. -/
def Value.nesting : Value → Nat
  | .null | .boolean _ | .integer _ | .float _ | .string _ => 0
  | .list vs => 1 + nestingItems vs
  | .dict es => 1 + nestingEntries es
  | .struct _ vs => 1 + nestingItems vs

/-- How deep aggregates nest in the deepest of several values. -/
def Value.nestingItems : List Value → Nat
  | [] => 0
  | v :: vs => max v.nesting (nestingItems vs)

/-- How deep aggregates nest in the deepest value of several entries. -/
def Value.nestingEntries : List (String × Value) → Nat
  | [] => 0
  | (_, v) :: es => max v.nesting (nestingEntries es)

end

/-! ## Encodings in parts -/

/-- What a node adds to the encoding of a value: all of a scalar, a string or a key, and the header
of an aggregate, with its signature if it is a structure. -/
structure Part where
  /-- The level of the aggregate that is opened, the outermost one being at level one. -/
  level : Option Nat
  bytes : Bytes

mutual

/-- The parts of the encoding of a value that stands inside `depth` aggregates. -/
def Value.parts (options : Options) (depth : Nat) : Value → List Part
  | .null => [⟨none, reference options .null⟩]
  | .boolean b => [⟨none, reference options (.boolean b)⟩]
  | .integer i => [⟨none, reference options (.integer i)⟩]
  | .float x => [⟨none, reference options (.float x)⟩]
  | .string s => [⟨none, reference options (.string s)⟩]
  | .list vs =>
    ⟨some (depth + 1), Reference.header options.lengths .list vs.length⟩ ::
      partsItems options (depth + 1) vs
  | .dict es =>
    ⟨some (depth + 1), Reference.header options.lengths .dict es.length⟩ ::
      partsEntries options (depth + 1) es
  | .struct signature vs =>
    ⟨some (depth + 1), Reference.structHeader options signature vs.length⟩ ::
      partsItems options (depth + 1) vs

/-- The parts of values one after the other. -/
def Value.partsItems (options : Options) (depth : Nat) : List Value → List Part
  | [] => []
  | v :: vs => v.parts options depth ++ partsItems options depth vs

/-- The parts of entries one after the other, each key before its value. -/
def Value.partsEntries (options : Options) (depth : Nat) : List (String × Value) → List Part
  | [] => []
  | (k, v) :: es =>
    ⟨none, Reference.string options k⟩ :: (v.parts options depth ++ partsEntries options depth es)

end

namespace Reference

theorem header_ne_nil (lengths : LengthForm) (f : MarkerFamily) (n : Nat) :
    header lengths f n ≠ [] :=
  List.ne_nil_of_length_pos (length_header_pos lengths f n)

theorem string_ne_nil (options : Options) (s : String) : string options s ≠ [] := by
  intro empty
  exact header_ne_nil _ _ _ (List.append_eq_nil_iff.1 empty).1

theorem structHeader_ne_nil (options : Options) (signature : UInt8) (n : Nat) :
    structHeader options signature n ≠ [] := by
  unfold structHeader
  cases options.signature with
  | afterHeader => simp
  | beforeHeader => simp

end Reference

namespace Value

mutual

/-- The parts make up the encoding. -/
theorem flatMap_parts (options : Options) (depth : Nat) (v : Value) :
    (v.parts options depth).flatMap Part.bytes = v.reference options := by
  cases v with
  | null | boolean | integer | float | string => exact List.append_nil _
  | list vs =>
    rw [parts, List.flatMap_cons, flatMap_partsItems options (depth + 1) vs, reference]
  | dict es =>
    rw [parts, List.flatMap_cons, flatMap_partsEntries options (depth + 1) es, reference]
  | struct signature vs =>
    rw [parts, List.flatMap_cons, flatMap_partsItems options (depth + 1) vs, reference]

theorem flatMap_partsItems (options : Options) (depth : Nat) (vs : List Value) :
    (partsItems options depth vs).flatMap Part.bytes = referenceItems options vs := by
  cases vs with
  | nil => rfl
  | cons v vs =>
    rw [partsItems, List.flatMap_append, flatMap_parts options depth v,
      flatMap_partsItems options depth vs, referenceItems]

theorem flatMap_partsEntries (options : Options) (depth : Nat) (es : List (String × Value)) :
    (partsEntries options depth es).flatMap Part.bytes = referenceEntries options es := by
  match es with
  | [] => rfl
  | (k, v) :: es =>
    rw [partsEntries, List.flatMap_cons, List.flatMap_append, flatMap_parts options depth v,
      flatMap_partsEntries options depth es, referenceEntries, List.append_assoc]

end

mutual

/-- The levels that are opened are those down to which the value nests, without a gap. -/
theorem level_mem_parts_iff (options : Options) (depth level : Nat) (v : Value) :
    some level ∈ (v.parts options depth).map Part.level ↔
      depth < level ∧ level ≤ depth + v.nesting := by
  cases v with
  | null | boolean | integer | float | string =>
    simp only [parts, nesting, List.map_cons, List.map_nil, List.mem_singleton, reduceCtorEq,
      false_iff]
    omega
  | list vs =>
    -- The header opens the level below `depth`, and the content goes on from there.
    have inner := level_mem_partsItems_iff options (depth + 1) level vs
    simp only [parts, nesting, List.map_cons, List.mem_cons, Option.some.injEq, inner]
    omega
  | dict es =>
    have inner := level_mem_partsEntries_iff options (depth + 1) level es
    simp only [parts, nesting, List.map_cons, List.mem_cons, Option.some.injEq, inner]
    omega
  | struct signature vs =>
    have inner := level_mem_partsItems_iff options (depth + 1) level vs
    simp only [parts, nesting, List.map_cons, List.mem_cons, Option.some.injEq, inner]
    omega

theorem level_mem_partsItems_iff (options : Options) (depth level : Nat) (vs : List Value) :
    some level ∈ (partsItems options depth vs).map Part.level ↔
      depth < level ∧ level ≤ depth + nestingItems vs := by
  cases vs with
  | nil =>
    simp only [partsItems, nestingItems, List.map_nil, List.not_mem_nil, false_iff]
    omega
  | cons v vs =>
    have first := level_mem_parts_iff options depth level v
    have others := level_mem_partsItems_iff options depth level vs
    simp only [partsItems, nestingItems, List.map_append, List.mem_append, first, others]
    omega

theorem level_mem_partsEntries_iff (options : Options) (depth level : Nat)
    (es : List (String × Value)) :
    some level ∈ (partsEntries options depth es).map Part.level ↔
      depth < level ∧ level ≤ depth + nestingEntries es := by
  match es with
  | [] =>
    simp only [partsEntries, nestingEntries, List.map_nil, List.not_mem_nil, false_iff]
    omega
  | (k, v) :: es =>
    have first := level_mem_parts_iff options depth level v
    have others := level_mem_partsEntries_iff options depth level es
    simp only [partsEntries, nestingEntries, List.map_cons, List.map_append, List.mem_cons,
      List.mem_append, reduceCtorEq, false_or, first, others]
    omega

end

mutual

/-- Every part is at least a byte. -/
theorem bytes_ne_nil_of_mem_parts {options : Options} {depth : Nat} {v : Value} {part : Part}
    (mem : part ∈ v.parts options depth) : part.bytes ≠ [] := by
  cases v with
  | null | boolean | float =>
    rw [List.mem_singleton.1 mem]
    exact List.cons_ne_nil _ _
  | integer i =>
    rw [List.mem_singleton.1 mem]
    apply List.ne_nil_of_length_pos
    rw [reference, Reference.integer_eq_bytes, IntWidth.length_bytes]
    exact Nat.add_pos_left Nat.one_pos _
  | string s =>
    rw [List.mem_singleton.1 mem]
    exact Reference.string_ne_nil options s
  | list vs =>
    obtain rfl | inner := List.mem_cons.1 mem
    · exact Reference.header_ne_nil _ _ _
    · exact bytes_ne_nil_of_mem_partsItems inner
  | dict es =>
    obtain rfl | inner := List.mem_cons.1 mem
    · exact Reference.header_ne_nil _ _ _
    · exact bytes_ne_nil_of_mem_partsEntries inner
  | struct signature vs =>
    obtain rfl | inner := List.mem_cons.1 mem
    · exact Reference.structHeader_ne_nil _ _ _
    · exact bytes_ne_nil_of_mem_partsItems inner

theorem bytes_ne_nil_of_mem_partsItems {options : Options} {depth : Nat} {vs : List Value}
    {part : Part} (mem : part ∈ partsItems options depth vs) : part.bytes ≠ [] := by
  cases vs with
  | nil => cases mem
  | cons v vs =>
    obtain first | others := List.mem_append.1 mem
    · exact bytes_ne_nil_of_mem_parts first
    · exact bytes_ne_nil_of_mem_partsItems others

theorem bytes_ne_nil_of_mem_partsEntries {options : Options} {depth : Nat}
    {es : List (String × Value)} {part : Part} (mem : part ∈ partsEntries options depth es) :
    part.bytes ≠ [] := by
  match es with
  | (k, v) :: es =>
    obtain rfl | rest := List.mem_cons.1 mem
    · exact Reference.string_ne_nil options k
    · obtain content | others := List.mem_append.1 rest
      · exact bytes_ne_nil_of_mem_parts content
      · exact bytes_ne_nil_of_mem_partsEntries others

end

end Value

/-! ## Scripts that come to the same -/

namespace Script

theorem output_append_of_refused {xs : List Step} {error : EncodeError}
    (h : refusal? xs = some error) (ys : List Step) : output (xs ++ ys) = output xs := by
  induction xs with
  | nil => cases h
  | cons x xs ih =>
    cases x with
    | write bs => exact congrArg (bs ++ ·) (ih h)
    | notice => exact ih h
    | refuse => rfl

/-- Whether steps hand over the same bytes before the first refusal, and are refused alike. -/
structure SameEffect (xs ys : List Step) : Prop where
  output : output xs = output ys
  refusal : refusal? xs = refusal? ys

theorem SameEffect.append {xs xs' ys ys' : List Step} (hx : SameEffect xs xs')
    (hy : SameEffect ys ys') : SameEffect (xs ++ ys) (xs' ++ ys') := by
  constructor
  · -- What comes after a refusal makes no difference.
    cases refused : refusal? xs with
    | some error =>
      have refused' : refusal? xs' = some error := hx.refusal.symm.trans refused
      rw [output_append_of_refused refused, output_append_of_refused refused', hx.output]
    | none =>
      have complete : refusal? xs' = none := hx.refusal.symm.trans refused
      rw [output_append refused, output_append complete, hx.output, hy.output]
  · rw [refusal?_append, refusal?_append, hx.refusal, hy.refusal]

end Script

/-- The steps that write a part and, if it opens a level that is not allowed, end there. -/
def Part.steps (limit : Nat) (part : Part) : List Step :=
  if part.level = some (limit + 1) then [.write part.bytes, .refuse (.nestingTooDeep limit)]
  else [.write part.bytes]

namespace Script

variable {options : Options} {depth : Nat}

theorem sameEffect_write {steps : List Step} {bs : Bytes} (complete : refusal? steps = none)
    (out : output steps = bs) : SameEffect steps [.write bs] := by
  refine ⟨?_, complete⟩
  rw [out]
  exact (List.append_nil bs).symm

/-- A value without sized nodes is one part. -/
theorem sameEffect_scalar (limit : Nat) {v : Value} (scalar : v.sizedNodes depth = []) :
    SameEffect (value options depth v #[]).toList
      (Part.steps limit ⟨none, v.reference options⟩) := by
  have complete : refusal? (value options depth v #[]).toList = none := by
    rw [refusal?_value, scalar]
    rfl
  exact sameEffect_write complete (output_value complete)

theorem sameEffect_string (limit : Nat) {s : String}
    (fits : s.utf8ByteSize ≤ MarkerFamily.string.maxSize) :
    SameEffect (string #[] options s).toList
      (Part.steps limit ⟨none, Reference.string options s⟩) := by
  have complete : refusal? (string #[] options s).toList = none := by
    rw [refusal?_string options 0 s]
    apply SizedNode.offence_eq_none_iff.2
    intro error offends
    cases offends with
    | tooLarge large => exact absurd fits (Nat.not_le.2 large)
    | tooDeep _ aggregate => exact aggregate rfl
  exact sameEffect_write complete (output_string complete)

/-- After its header, an aggregate is cut off if it stands at the last level allowed, and otherwise
goes on. -/
theorem sameEffect_aggregate {limit : Nat} {xs steps : List Step} {bs : Bytes} {parts : List Part}
    (limited : options.depthLimit = some limit) (within : depth ≤ limit)
    (complete : refusal? xs = none) (out : output xs = bs)
    (inner : depth + 1 ≤ limit → SameEffect steps (parts.flatMap (Part.steps limit))) :
    SameEffect (xs ++ content options depth steps)
      ((⟨some (depth + 1), bs⟩ :: parts : List Part).flatMap (Part.steps limit)) := by
  have header : SameEffect xs [.write bs] := sameEffect_write complete out
  rw [List.flatMap_cons, Part.steps, content]
  by_cases last : depth = limit
  · have exceeded : depthExceeded? options depth = some limit :=
      depthExceeded?_eq_some_iff.2 ⟨limited, by omega⟩
    rw [exceeded, if_pos (by rw [last])]
    exact header.append ⟨rfl, rfl⟩
  · have free : depthExceeded? options depth = none := by
      apply Option.eq_none_iff_forall_ne_some.2
      intro levels exceeded
      obtain ⟨same, deep⟩ := depthExceeded?_eq_some_iff.1 exceeded
      cases same.symm.trans limited
      omega
    rw [free, if_neg]
    · exact header.append (inner (by omega))
    · intro same
      exact last (Nat.succ.inj (Option.some.inj same))

mutual

/-- Under a limit, a value all of whose sizes can be announced comes to the same as its parts. -/
theorem sameEffect_value {limit : Nat} (limited : options.depthLimit = some limit)
    {depth : Nat} (within : depth ≤ limit) {v : Value}
    (fits : ∀ node ∈ v.sizedNodes depth, node.Fits) :
    SameEffect (value options depth v #[]).toList
      ((v.parts options depth).flatMap (Part.steps limit)) := by
  cases v with
  | null | boolean | integer | float => exact sameEffect_scalar limit rfl
  | string s => exact sameEffect_string limit (fits _ (List.mem_singleton.2 rfl))
  | list vs =>
    obtain ⟨own, inner⟩ := List.forall_mem_cons.1 fits
    obtain ⟨complete, out⟩ := header_of_fits (c := .list) options own
    rw [steps_list, Value.parts]
    apply sameEffect_aggregate limited within complete out
    intro deeper
    exact sameEffect_items limited deeper inner
  | dict es =>
    obtain ⟨own, inner⟩ := List.forall_mem_cons.1 fits
    obtain ⟨complete, out⟩ := header_of_fits (c := .dict) options own
    rw [steps_dict, Value.parts]
    apply sameEffect_aggregate limited within complete out
    intro deeper
    exact sameEffect_entries limited deeper inner
  | struct signature vs =>
    obtain ⟨own, inner⟩ := List.forall_mem_cons.1 fits
    have complete : refusal? (structHeader #[] options signature vs.length).toList = none := by
      rw [refusal?_structHeader]
      exact (header_of_fits (c := .struct) options own).1
    rw [steps_struct, Value.parts]
    apply sameEffect_aggregate limited within complete (output_structHeader complete)
    intro deeper
    exact sameEffect_items limited deeper inner

theorem sameEffect_items {limit : Nat} (limited : options.depthLimit = some limit)
    {depth : Nat} (within : depth ≤ limit) {vs : List Value}
    (fits : ∀ node ∈ Value.sizedNodesItems depth vs, node.Fits) :
    SameEffect (items options depth vs #[]).toList
      ((Value.partsItems options depth vs).flatMap (Part.steps limit)) := by
  cases vs with
  | nil => exact ⟨rfl, rfl⟩
  | cons v vs =>
    obtain ⟨own, others⟩ := List.forall_mem_append.1 fits
    rw [steps_items_cons, Value.partsItems, List.flatMap_append]
    apply SameEffect.append
    · exact sameEffect_value limited within own
    · exact sameEffect_items limited within others

theorem sameEffect_entries {limit : Nat} (limited : options.depthLimit = some limit)
    {depth : Nat} (within : depth ≤ limit) {es : List (String × Value)}
    (fits : ∀ node ∈ Value.sizedNodesEntries depth es, node.Fits) :
    SameEffect (entries options depth es #[]).toList
      ((Value.partsEntries options depth es).flatMap (Part.steps limit)) := by
  match es with
  | [] => exact ⟨rfl, rfl⟩
  | (k, v) :: es =>
    obtain ⟨key, rest⟩ := List.forall_mem_cons.1 fits
    obtain ⟨own, others⟩ := List.forall_mem_append.1 rest
    rw [steps_entries_cons, List.append_assoc, Value.partsEntries, List.flatMap_cons,
      List.flatMap_append]
    apply SameEffect.append
    · exact sameEffect_string limit key
    · apply SameEffect.append
      · exact sameEffect_value limited within own
      · exact sameEffect_entries limited within others

end

end Script

/-! ## Where the limit cuts -/

/-- Of some parts, `header` is the first that opens a level; `before` and `after` are the others. -/
structure Part.IsFirst (level : Nat) (parts before : List Part) (header : Part)
    (after : List Part) : Prop where
  split : parts = before ++ header :: after
  opens : header.level = some level
  first : ∀ part ∈ before, part.level ≠ some level

namespace Part

variable {limit : Nat}

/-- Of the parts that open a level there is a first one. -/
theorem exists_isFirst {parts : List Part} {level : Nat}
    (h : some level ∈ parts.map Part.level) :
    ∃ before header after, IsFirst level parts before header after := by
  induction parts with
  | nil => cases h
  | cons part parts ih =>
    by_cases here : part.level = some level
    · exact ⟨[], part, parts, rfl, here, List.forall_mem_nil _⟩
    · have later : some level ∈ parts.map Part.level := by
        rw [List.map_cons, List.mem_cons] at h
        exact h.resolve_left fun same => here same.symm
      obtain ⟨before, header, after, rfl, opens, first⟩ := ih later
      exact ⟨part :: before, header, after, rfl, opens, List.forall_mem_cons.2 ⟨here, first⟩⟩

/-- Parts that open no forbidden level are all written. -/
theorem flatMap_steps_of_allowed {parts : List Part}
    (allowed : ∀ part ∈ parts, part.level ≠ some (limit + 1)) :
    Script.refusal? (parts.flatMap (steps limit)) = none ∧
      Script.output (parts.flatMap (steps limit)) = parts.flatMap bytes := by
  induction parts with
  | nil => exact ⟨rfl, rfl⟩
  | cons part parts ih =>
    obtain ⟨own, others⟩ := List.forall_mem_cons.1 allowed
    obtain ⟨complete, out⟩ := ih others
    rw [List.flatMap_cons, List.flatMap_cons, steps, if_neg own]
    exact ⟨complete, congrArg (part.bytes ++ ·) out⟩

/-- Parts that are at least a byte each come to nothing only if there are none. -/
theorem flatMap_bytes_eq_nil_iff {parts : List Part} (filled : ∀ part ∈ parts, part.bytes ≠ []) :
    parts.flatMap bytes = [] ↔ parts = [] := by
  rw [List.flatMap_eq_nil_iff]
  constructor
  · intro all
    apply List.eq_nil_iff_forall_not_mem.2
    intro part mem
    exact filled part mem (all part mem)
  · rintro rfl
    exact List.forall_mem_nil _

/-- The first part that opens a forbidden level is the last to be written. -/
theorem IsFirst.flatMap_steps {parts before after : List Part} {header : Part}
    (h : IsFirst (limit + 1) parts before header after) :
    Script.refusal? (parts.flatMap (steps limit)) = some (.nestingTooDeep limit) ∧
      Script.output (parts.flatMap (steps limit)) = (before ++ [header]).flatMap bytes := by
  obtain ⟨complete, out⟩ := flatMap_steps_of_allowed h.first
  rw [h.split, List.flatMap_append, List.flatMap_append, List.flatMap_cons, steps, if_pos h.opens]
  constructor
  · rw [Script.refusal?_append, complete]
    rfl
  · rw [Script.output_append complete, out]
    rfl

end Part

namespace Value

variable {options : Options} {limit : Nat} {v : Value}

/-- A value that nests no deeper than the limit is written as a whole. -/
theorem steps_of_nesting_le (limited : options.depthLimit = some limit)
    (fits : ∀ node ∈ v.sizedNodes 0, node.Fits) (shallow : v.nesting ≤ limit) :
    Script.refusal? (v.steps options 0) = none ∧
      Script.output (v.steps options 0) = v.reference options := by
  have allowed : ∀ part ∈ v.parts options 0, part.level ≠ some (limit + 1) := by
    intro part mem same
    have opens : some (limit + 1) ∈ (v.parts options 0).map Part.level :=
      List.mem_map.2 ⟨part, mem, same⟩
    have range := (v.level_mem_parts_iff options 0 (limit + 1)).1 opens
    omega
  obtain ⟨out, refusal⟩ := Script.sameEffect_value limited (Nat.zero_le limit) fits
  obtain ⟨complete, all⟩ := Part.flatMap_steps_of_allowed allowed
  rw [steps, refusal, out, complete, all, flatMap_parts]
  exact ⟨rfl, rfl⟩

/-- A value that nests deeper is written up to the first header below the limit. -/
theorem steps_of_lt_nesting (limited : options.depthLimit = some limit)
    (fits : ∀ node ∈ v.sizedNodes 0, node.Fits) (deep : limit < v.nesting) :
    ∃ before header after, Part.IsFirst (limit + 1) (v.parts options 0) before header after ∧
      Script.refusal? (v.steps options 0) = some (.nestingTooDeep limit) ∧
      Script.output (v.steps options 0) = (before ++ [header]).flatMap Part.bytes := by
  have opened := (v.level_mem_parts_iff options 0 (limit + 1)).2 (by omega)
  obtain ⟨before, header, after, first⟩ := Part.exists_isFirst opened
  obtain ⟨out, refusal⟩ := Script.sameEffect_value limited (Nat.zero_le limit) fits
  obtain ⟨refused, beginning⟩ := first.flatMap_steps
  refine ⟨before, header, after, first, ?_, ?_⟩
  · rw [steps, refusal, refused]
  · rw [steps, out, beginning]

/-- The encoding goes on after a part if and only if there is a further part. -/
theorem reference_eq_of_isFirst {level : Nat} {before after : List Part} {header : Part}
    (first : Part.IsFirst level (v.parts options 0) before header after) :
    let cut := (before ++ [header]).flatMap Part.bytes
    v.reference options = cut ++ after.flatMap Part.bytes ∧
      (cut = v.reference options ↔ after = []) := by
  intro cut
  have split : v.reference options = cut ++ after.flatMap Part.bytes := by
    rw [← v.flatMap_parts options 0, first.split, List.append_cons, List.flatMap_append]
  have filled : ∀ part ∈ after, part.bytes ≠ [] := by
    intro part mem
    have mem_parts : part ∈ v.parts options 0 := by
      rw [first.split]
      exact List.mem_append_right _ (List.mem_cons_of_mem _ mem)
    exact bytes_ne_nil_of_mem_parts mem_parts
  refine ⟨split, ?_⟩
  rw [split, List.self_eq_append_right, Part.flatMap_bytes_eq_nil_iff filled]

end Value

namespace Encoder

/-- Let a value encode to `bs` without a limit. Under a limit an encoder adds all of `bs` to a sink
that takes everything if the value nests no deeper than that. If it nests deeper, the encoder fails
after the header of the first aggregate that stands below the limit: it has added the beginning
of `bs` that ends there, and counted it. That is all of `bs` if and only if nothing follows.

What encodes under a limit encodes to the same bytes under a higher one and under none. -/
theorem encode_limited (lengths : LengthForm) (signature : SignaturePlace) (limit : Nat)
    (v : Value) :
    let free : Options := { lengths, signature }
    let limited (levels : Nat) : Options := { lengths, signature, depthLimit := some levels }
    (∀ (sink : Sink) (past : List (Call Sink)) (bs : Bytes),
        let e : Encoder := after { sink, options := limited limit } past
        let d := (encode v e).state
        e.sink.TakesAll → v.toBytes free = .ok bs →
        (v.nesting ≤ limit →
          (encode v e).outcome = .ok () ∧
          d.sink.bytes.toList = e.sink.bytes.toList ++ bs ∧
          d.written = e.written + bs.length) ∧
        (limit < v.nesting →
          (encode v e).outcome = .error (.nestingTooDeep limit) ∧
          ∃ before header after,
            Part.IsFirst (limit + 1) (v.parts (limited limit) 0) before header after ∧
            let cut := (before ++ [header]).flatMap Part.bytes
            d.sink.bytes.toList = e.sink.bytes.toList ++ cut ∧
            d.written = e.written + cut.length ∧
            bs = cut ++ after.flatMap Part.bytes ∧
            (cut = bs ↔ after = []))) ∧
      ∀ bs, v.toBytes (limited limit) = .ok bs →
        v.toBytes free = .ok bs ∧
        ∀ higher, limit ≤ higher → v.toBytes (limited higher) = .ok bs := by
  intro free limited
  have unchanged (levels : Nat) : v.reference free = v.reference (limited levels) :=
    Value.reference_congr (by rfl) (by rfl) v
  constructor
  · intro sink past bs e d takesAll encoded
    obtain ⟨depth, options⟩ : e.IsReady (limited limit) := IsReady.after ⟨rfl, rfl⟩ past
    have fits := Value.fits_of_toBytes encoded
    have isLimited : (limited limit).depthLimit = some limit := rfl
    obtain ⟨outcome, bytes, written⟩ := encode_of_fits (v := v) takesAll.2 (takesAll.fits _)
    rw [options, depth] at outcome bytes written
    obtain ⟨-, rfl⟩ := Value.toBytes_eq_ok_iff.1 encoded
    rw [unchanged limit]
    constructor
    · intro shallow
      obtain ⟨complete, all⟩ := Value.steps_of_nesting_le isLimited fits shallow
      rw [complete] at outcome
      rw [all] at bytes written
      exact ⟨outcome, bytes, written⟩
    · intro deep
      obtain ⟨before, header, after, first, refused, cut⟩ :=
        Value.steps_of_lt_nesting isLimited fits deep
      rw [refused] at outcome
      rw [cut] at bytes written
      exact ⟨outcome, before, header, after, first, bytes, written,
        Value.reference_eq_of_isFirst first⟩
  · intro bs encoded
    obtain ⟨-, rfl⟩ := Value.toBytes_eq_ok_iff.1 encoded
    constructor
    · rw [← unchanged limit]
      exact Value.toBytes_of_raised encoded nofun
    · intro higher le
      rw [← unchanged limit, unchanged higher]
      apply Value.toBytes_of_raised encoded
      rintro _ ⟨⟩
      exact ⟨limit, rfl, le⟩

/-- Of a structure that stands one level too deep, the header and the signature are written. -/
theorem encode_limited_struct :
    let v : Value := .list [.null, .struct 7 [.boolean true], .list []]
    let encoder (limit : Nat) : Encoder :=
      { sink := {}, options := { signature := .beforeHeader, depthLimit := some limit } }
    v.toBytes { signature := .beforeHeader } = .ok [0x93, 0xC0, 0x07, 0xB1, 0xC3, 0x90] ∧
      (encode v (encoder 2)).outcome = .ok () ∧
      (encode v (encoder 1)).outcome = .error (.nestingTooDeep 1) ∧
      (encode v (encoder 1)).state.sink.bytes.toList = [0x93, 0xC0, 0x07, 0xB1] := by
  intro v encoder
  have encoded : v.toBytes { signature := .beforeHeader } =
      .ok [0x93, 0xC0, 0x07, 0xB1, 0xC3, 0x90] := by
    rw [Value.toBytes_eq_reference]
    rfl
  have unlimited (limit : Nat) : (encoder limit).sink.TakesAll := ⟨rfl, nofun⟩
  obtain ⟨enough, -⟩ :=
    (encode_limited .full .beforeHeader 2 v).1 {} [] _ (unlimited 2) encoded
  obtain ⟨-, tooDeep⟩ :=
    (encode_limited .full .beforeHeader 1 v).1 {} [] _ (unlimited 1) encoded
  obtain ⟨refused, before, header, after, ⟨split, opens, first⟩, bytes, -⟩ := tooDeep (by decide)
  refine ⟨encoded, (enough (by decide)).1, refused, ?_⟩
  match before with
  | [] =>
    cases split
    cases opens
  | [_] =>
    cases split
    cases opens
  | [_, _] =>
    cases split
    exact bytes
  | _ :: _ :: third :: _ =>
    injection split with _ split
    injection split with _ split
    injection split with same _
    exact absurd (congrArg Part.level same.symm) (first third (by simp))

end Encoder

end PackStream
