import PackStream.Proofs.Encoding.Reference

/-!
# When encoding fails

Encoding fails at the first node, in the order of writing, that offends: one that is larger than a
header of its category can announce, or else an aggregate that stands deeper than the depth limit.
How lengths are written and where signatures stand make no difference. On a writer that can fail,
encoding can also end with its failure.

Main statements: `Value.toBytes_ends_at_first_offence`, and `Encoder.encode_error_cases` for any
writer.
-/

set_option autoImplicit false

namespace PackStream

/-- The largest size that a header can announce, in four bytes, or two for structures. -/
def Category.maxSize : Category → Nat
  | .string | .list | .dict => 0xFFFFFFFF
  | .struct => 0xFFFF

theorem Category.maxSize_family (c : Category) : c.family.maxSize = c.maxSize := by
  cases c <;> rfl

/-- Whether a node cannot be written under a depth limit, and the error that says so. -/
inductive SizedNode.Offends (limit : Option Nat) (node : SizedNode) : EncodeError → Prop
  /-- The node is too large, however deep it stands. -/
  | tooLarge (large : node.category.maxSize < node.size) :
      Offends limit node
        (.lengthOverflow node.category.family.name node.size node.category.maxSize)
  /-- The node is an aggregate at a level below the last one allowed. The outermost aggregate is
  at level one. -/
  | tooDeep {levels : Nat} (limited : limit = some levels)
      (aggregate : node.category ≠ .string) (fits : node.size ≤ node.category.maxSize)
      (deep : levels < node.depth + 1) : Offends limit node (.nestingTooDeep levels)

/-- The limit counts as exceeded exactly where it allows no further level. -/
theorem Script.depthExceeded?_eq_some_iff {options : Options} {depth levels : Nat} :
    depthExceeded? options depth = some levels ↔
      options.depthLimit = some levels ∧ levels < depth + 1 := by
  rw [depthExceeded?, Option.filter_eq_some_iff, decide_eq_true_iff, Nat.lt_succ_iff]

theorem SizedNode.offence_eq_some_iff {options : Options} {node : SizedNode}
    {error : EncodeError} :
    node.offence options = some error ↔ node.Offends options.depthLimit error := by
  unfold offence
  rw [node.category.maxSize_family]
  constructor
  · intro h
    split at h
    · rename_i large
      cases h
      exact .tooLarge large
    · rename_i fits
      split at h
      · cases h
      · rename_i aggregate
        obtain ⟨levels, exceeded, rfl⟩ := Option.map_eq_some_iff.1 h
        obtain ⟨limited, deep⟩ := Script.depthExceeded?_eq_some_iff.1 exceeded
        exact .tooDeep limited aggregate (Nat.le_of_not_lt fits) deep
  · intro h
    cases h with
    | tooLarge large => exact if_pos large
    | tooDeep limited aggregate fits deep =>
      have exceeded := Script.depthExceeded?_eq_some_iff.2 ⟨limited, deep⟩
      rw [if_neg (Nat.not_lt.2 fits), if_neg aggregate, exceeded]
      rfl

theorem SizedNode.offence_eq_none_iff {options : Options} {node : SizedNode} :
    node.offence options = none ↔ ∀ error, ¬ node.Offends options.depthLimit error := by
  simp only [← offence_eq_some_iff, Option.eq_none_iff_forall_ne_some, ne_eq]

/-- The error that is found first is that of the first node that offends. -/
theorem SizedNode.findSome?_offence_eq_some_iff {options : Options} {nodes : List SizedNode}
    {error : EncodeError} :
    nodes.findSome? (SizedNode.offence options) = some error ↔
      ∃ before node after, nodes = before ++ node :: after ∧
        node.Offends options.depthLimit error ∧
        ∀ earlier ∈ before, ∀ e, ¬ earlier.Offends options.depthLimit e := by
  simp only [List.findSome?_eq_some_iff, offence_eq_some_iff, offence_eq_none_iff]

/-- Offences depend on the depth limit alone. -/
theorem SizedNode.offence_congr {options other : Options}
    (same : other.depthLimit = options.depthLimit) :
    SizedNode.offence other = SizedNode.offence options := by
  funext node
  simp only [offence, Script.depthExceeded?, same]

/-- Encoding succeeds if no node of the value offends, and otherwise ends with the error of the
first that does. Whether it does, and with which error, is the same for both ways to write lengths
and both places of signatures. -/
theorem Value.toBytes_ends_at_first_offence (options : Options) (v : Value) :
    ((∃ bs, v.toBytes options = .ok bs) ↔
        ∀ node ∈ v.sizedNodes 0, ∀ error, ¬ node.Offends options.depthLimit error) ∧
      (∀ error, v.toBytes options = .error error ↔
        ∃ before node after, v.sizedNodes 0 = before ++ node :: after ∧
          node.Offends options.depthLimit error ∧
          ∀ earlier ∈ before, ∀ e, ¬ earlier.Offends options.depthLimit e) ∧
      ∀ (lengths : LengthForm) (signature : SignaturePlace),
        (v.toBytes { options with lengths, signature }).map (fun _ => ()) =
          (v.toBytes options).map (fun _ => ()) := by
  refine ⟨?_, ?_, ?_⟩
  · simp only [← SizedNode.offence_eq_none_iff, ← List.findSome?_eq_none_iff]
    rw [toBytes_eq_reference]
    cases (v.sizedNodes 0).findSome? (SizedNode.offence options) <;> simp
  · intro error
    rw [← SizedNode.findSome?_offence_eq_some_iff, toBytes_eq_reference]
    cases (v.sizedNodes 0).findSome? (SizedNode.offence options) <;> simp
  · intro lengths signature
    have offence : SizedNode.offence { options with lengths, signature } =
        SizedNode.offence options := SizedNode.offence_congr rfl
    rw [toBytes_eq_reference, toBytes_eq_reference, offence]
    cases (v.sizedNodes 0).findSome? (SizedNode.offence options) <;> rfl

/-- What is encoded under some options is encoded under all that let aggregates nest as deep. -/
theorem Value.toBytes_of_raised {options options' : Options} {v : Value} {bs : Bytes}
    (encoded : v.toBytes options = .ok bs)
    (raised : ∀ levels, options'.depthLimit = some levels →
      ∃ limit, options.depthLimit = some limit ∧ limit ≤ levels) :
    v.toBytes options' = .ok (v.reference options') := by
  refine toBytes_eq_ok_iff.2 ⟨?_, rfl⟩
  intro node mem
  have harmless := SizedNode.offence_eq_none_iff.1 ((toBytes_eq_ok_iff.1 encoded).1 node mem)
  apply SizedNode.offence_eq_none_iff.2
  intro error offends
  cases offends with
  | tooLarge large => exact harmless _ (.tooLarge large)
  | tooDeep limited aggregate fits deep =>
    obtain ⟨limit, limited', le⟩ := raised _ limited
    exact harmless _ (.tooDeep limited' aggregate fits (Nat.lt_of_le_of_lt le deep))

/-! ## On any writer -/

namespace Encoder

variable {σ : Type} [Writer σ]

/-- Steps fail where the sink does, or with their refusal. -/
theorem performAll_error_cases {steps : List Step} {e d : Encoder σ} {error : EncodeError}
    (h : performAll steps e = .error error d) :
    (∃ reason, error = .sinkFailure reason) ∨ Script.refusal? steps = some error := by
  induction steps generalizing e with
  | nil => cases h
  | cons step steps ih =>
    rw [performAll] at h
    obtain failed | ⟨⟨⟩, c, first, others⟩ := EStateM.bind_eq_error_iff.1 h
    · cases step with
      | write bs =>
        rw [perform, write] at failed
        split at failed
        · cases failed
        · cases failed
          exact .inl ⟨_, rfl⟩
      | notice event => cases failed
      | refuse error =>
        cases failed
        exact .inr rfl
    · cases step with
      | write | notice => exact ih others
      | refuse error => cases first

/-- Encoding a value fails where the sink does, or for a node that offends. -/
theorem encode_error_cases {v : Value} {e : Encoder σ} {error : EncodeError}
    (h : (encode v e).outcome = .error error) :
    (∃ reason, error = .sinkFailure reason) ∨
      ∃ node ∈ v.sizedNodes e.depth, node.Offends e.options.depthLimit error := by
  rw [(encode_same v e).1] at h
  cases run : performAll (v.steps e.options e.depth) e with
  | ok u d =>
    rw [run] at h
    cases h
  | error error' d =>
    rw [run] at h
    cases h
    obtain sink | refused := performAll_error_cases run
    · exact .inl sink
    · rw [Value.steps, Script.refusal?_value] at refused
      obtain ⟨node, mem, offence⟩ := List.exists_of_findSome?_eq_some refused
      exact .inr ⟨node, mem, SizedNode.offence_eq_some_iff.1 offence⟩

end Encoder

end PackStream
