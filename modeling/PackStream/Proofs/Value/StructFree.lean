import PackStream.Proofs.Value.Nodes

/-!
# Values without structures

A part of the format needs no structures. Since a structure is written with its size, wherever it
stands, the sized nodes of a value tell whether there is one in it.

Main statement: `Value.structFree_iff`.
-/

set_option autoImplicit false

namespace PackStream

/-- There is no structure in the value, at no depth. -/
inductive Value.StructFree : Value → Prop where
  | null : StructFree .null
  | boolean (b : Bool) : StructFree (.boolean b)
  | integer (i : Int64) : StructFree (.integer i)
  | float (x : Binary64) : StructFree (.float x)
  | string (s : String) : StructFree (.string s)
  | list {items : List Value} (each : ∀ v ∈ items, StructFree v) : StructFree (.list items)
  | dict {entries : List (String × Value)} (each : ∀ e ∈ entries, StructFree e.2) :
      StructFree (.dict entries)

namespace Value

theorem structFree_list_iff {vs : List Value} :
    (Value.list vs).StructFree ↔ ∀ v ∈ vs, v.StructFree := by
  constructor
  · intro h
    cases h with
    | list each => exact each
  · exact .list

theorem structFree_dict_iff {es : List (String × Value)} :
    (Value.dict es).StructFree ↔ ∀ e ∈ es, e.2.StructFree := by
  constructor
  · intro h
    cases h with
    | dict each => exact each
  · exact .dict

mutual

/-- A value has no structure in it exactly if none of its sized nodes is one. -/
theorem structFree_iff (depth : Nat) (v : Value) :
    v.StructFree ↔ ∀ node ∈ v.sizedNodes depth, node.category ≠ .struct := by
  cases v with
  | null => simp [sizedNodes, StructFree.null]
  | boolean b => simp [sizedNodes, StructFree.boolean]
  | integer i => simp [sizedNodes, StructFree.integer]
  | float x => simp [sizedNodes, StructFree.float]
  | string s => simp [sizedNodes, StructFree.string]
  | list vs =>
    rw [structFree_list_iff, structFreeItems_iff (depth + 1)]
    simp [sizedNodes]
  | dict es =>
    rw [structFree_dict_iff, structFreeEntries_iff (depth + 1)]
    simp [sizedNodes]
  | struct signature vs =>
    constructor
    · nofun
    · intro none
      exact absurd rfl (none _ List.mem_cons_self)

theorem structFreeItems_iff (depth : Nat) (vs : List Value) :
    (∀ v ∈ vs, v.StructFree) ↔ ∀ node ∈ sizedNodesItems depth vs, node.category ≠ .struct := by
  cases vs with
  | nil => simp [sizedNodesItems]
  | cons v vs =>
    rw [sizedNodesItems, List.forall_mem_cons, List.forall_mem_append]
    exact and_congr (structFree_iff depth v) (structFreeItems_iff depth vs)

theorem structFreeEntries_iff (depth : Nat) (es : List (String × Value)) :
    (∀ e ∈ es, e.2.StructFree) ↔
      ∀ node ∈ sizedNodesEntries depth es, node.category ≠ .struct := by
  match es with
  | [] => simp [sizedNodesEntries]
  | (k, v) :: es =>
    have own : Category.string ≠ .struct := nofun
    rw [sizedNodesEntries, List.forall_mem_cons, List.forall_mem_cons, List.forall_mem_append,
      ← structFree_iff depth v, ← structFreeEntries_iff depth es]
    exact (and_iff_right own).symm

end

end Value

end PackStream
