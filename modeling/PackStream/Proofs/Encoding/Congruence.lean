import PackStream.Proofs.Encoding.Reference
import PackStream.Proofs.Value.StructFree

/-!
# What the reference encoding depends on

Options enter the encoding of a value at its sized nodes only: they decide on the header of a node,
and on the place of the signature if the node is a structure. Options that agree at every node of a
value therefore encode it alike. They do if they write lengths alike and put signatures alike; but
the place of signatures does not matter where there are no structures, nor how lengths are written
where they take a byte at most.

Main statement: `Value.reference_eq_of_agree`.
-/

set_option autoImplicit false

namespace PackStream

variable {options options' : Options}

/-- Whether options write a node alike. -/
structure SizedNode.Agree (options options' : Options) (node : SizedNode) : Prop where
  header : Reference.header options.lengths node.category.family node.size =
    Reference.header options'.lengths node.category.family node.size
  signature (isStruct : node.category = .struct) : options.signature = options'.signature

namespace Value

mutual

/-- Options that agree at the nodes of a value encode it alike. -/
theorem reference_eq_of_agree (depth : Nat) (v : Value)
    (agree : ∀ node ∈ v.sizedNodes depth, node.Agree options options') :
    v.reference options = v.reference options' := by
  cases v with
  | null | boolean | integer | float => rfl
  | string s =>
    have own := (agree _ (List.mem_singleton.2 rfl)).header
    exact congrArg (· ++ Utf8.encode s) own
  | list vs =>
    obtain ⟨own, inner⟩ := List.forall_mem_cons.1 agree
    rw [reference, reference, referenceItems_eq_of_agree (depth + 1) vs inner]
    exact congrArg (· ++ referenceItems options' vs) own.header
  | dict es =>
    obtain ⟨own, inner⟩ := List.forall_mem_cons.1 agree
    rw [reference, reference, referenceEntries_eq_of_agree (depth + 1) es inner]
    exact congrArg (· ++ referenceEntries options' es) own.header
  | struct signature vs =>
    obtain ⟨own, inner⟩ := List.forall_mem_cons.1 agree
    have header : Reference.header options.lengths .struct vs.length =
        Reference.header options'.lengths .struct vs.length := own.header
    rw [reference, reference, referenceItems_eq_of_agree (depth + 1) vs inner,
      Reference.structHeader, Reference.structHeader, header, own.signature rfl]

theorem referenceItems_eq_of_agree (depth : Nat) (vs : List Value)
    (agree : ∀ node ∈ sizedNodesItems depth vs, node.Agree options options') :
    referenceItems options vs = referenceItems options' vs := by
  cases vs with
  | nil => rfl
  | cons v vs =>
    obtain ⟨first, others⟩ := List.forall_mem_append.1 agree
    rw [referenceItems, referenceItems, reference_eq_of_agree depth v first,
      referenceItems_eq_of_agree depth vs others]

theorem referenceEntries_eq_of_agree (depth : Nat) (es : List (String × Value))
    (agree : ∀ node ∈ sizedNodesEntries depth es, node.Agree options options') :
    referenceEntries options es = referenceEntries options' es := by
  match es with
  | [] => rfl
  | (k, v) :: es =>
    obtain ⟨key, rest⟩ := List.forall_mem_cons.1 agree
    obtain ⟨content, others⟩ := List.forall_mem_append.1 rest
    have same : Reference.string options k = Reference.string options' k :=
      congrArg (· ++ Utf8.encode k) key.header
    rw [referenceEntries, referenceEntries, same, reference_eq_of_agree depth v content,
      referenceEntries_eq_of_agree depth es others]

end

/-- The depth limit makes no difference. -/
theorem reference_congr (lengths : options.lengths = options'.lengths)
    (signature : options.signature = options'.signature) (v : Value) :
    v.reference options = v.reference options' := by
  refine reference_eq_of_agree 0 v fun node _ => ⟨?_, fun _ => signature⟩
  rw [lengths]

theorem StructFree.reference_eq {v : Value} (free : v.StructFree)
    (lengths : options.lengths = options'.lengths) :
    v.reference options = v.reference options' := by
  refine reference_eq_of_agree 0 v fun node mem => ⟨?_, ?_⟩
  · rw [lengths]
  · intro isStruct
    exact absurd isStruct ((structFree_iff 0 v).1 free node mem)

theorem reference_eq_of_small {v : Value} (small : ∀ node ∈ v.sizedNodes 0, node.size ≤ 255)
    (signature : options.signature = options'.signature) :
    v.reference options = v.reference options' := by
  refine reference_eq_of_agree 0 v fun node mem => ⟨?_, fun _ => signature⟩
  unfold Reference.header
  rw [if_pos (small node mem), if_pos (small node mem)]

end Value

end PackStream
