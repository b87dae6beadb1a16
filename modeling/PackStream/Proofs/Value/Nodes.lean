import PackStream.Proofs.Wire.Header
import PackStream.Value.Basic

/-!
# Sized nodes

The strings, keys, lists, dictionaries and structures in a value, each with its size and the
number of aggregates that are open around it, in the order in which they are written: a node
before what it contains, and a key before its value.
-/

set_option autoImplicit false

namespace PackStream

/-- A part of a value that is written with its size. -/
structure SizedNode where
  category : Category
  size : Nat
  /-- How many lists, dictionaries and structures it stands in. -/
  depth : Nat

/-- Whether the category can announce the size. -/
def SizedNode.Fits (node : SizedNode) : Prop :=
  node.size ≤ node.category.family.maxSize

mutual

/-- The sized nodes of a value that stands inside `depth` aggregates. -/
def Value.sizedNodes (depth : Nat) : Value → List SizedNode
  | .null | .boolean _ | .integer _ | .float _ => []
  | .string s => [⟨.string, s.utf8ByteSize, depth⟩]
  | .list vs => ⟨.list, vs.length, depth⟩ :: sizedNodesItems (depth + 1) vs
  | .dict es => ⟨.dict, es.length, depth⟩ :: sizedNodesEntries (depth + 1) es
  | .struct _ vs => ⟨.struct, vs.length, depth⟩ :: sizedNodesItems (depth + 1) vs

/-- The sized nodes of values one after the other. -/
def Value.sizedNodesItems (depth : Nat) : List Value → List SizedNode
  | [] => []
  | v :: vs => v.sizedNodes depth ++ sizedNodesItems depth vs

/-- The sized nodes of entries one after the other. -/
def Value.sizedNodesEntries (depth : Nat) : List (String × Value) → List SizedNode
  | [] => []
  | (k, v) :: es =>
    ⟨.string, k.utf8ByteSize, depth⟩ :: (v.sizedNodes depth ++ sizedNodesEntries depth es)

end

theorem Value.sizedNodesItems_eq_flatMap (depth : Nat) (vs : List Value) :
    sizedNodesItems depth vs = vs.flatMap (sizedNodes depth) := by
  induction vs with
  | nil => rfl
  | cons v vs ih => rw [sizedNodesItems, ih, List.flatMap_cons]

end PackStream
