import PackStream.Value.Basic
import Std.Data.TreeMap.Lemmas

/-!
# Values with ordered dictionaries

The entries of a dictionary value stand in strictly increasing order of their keys, at every depth
of the value. `Value.Ordered` says so, and `ordered_ofDict` shows that every dictionary gathered in
a map is listed that way.
-/

set_option autoImplicit false

namespace PackStream

/-- Every dictionary in the value lists its keys in strictly increasing order. -/
inductive Value.Ordered : Value → Prop where
  | null : Ordered .null
  | boolean (b : Bool) : Ordered (.boolean b)
  | integer (i : Int64) : Ordered (.integer i)
  | float (x : Binary64) : Ordered (.float x)
  | string (s : String) : Ordered (.string s)
  | list {items : List Value} (each : ∀ v ∈ items, Ordered v) : Ordered (.list items)
  | dict {entries : List (String × Value)} (keys : entries.Pairwise (fun a b => a.1 < b.1))
      (each : ∀ e ∈ entries, Ordered e.2) : Ordered (.dict entries)
  | struct {signature : UInt8} {fields : List Value} (each : ∀ v ∈ fields, Ordered v) :
      Ordered (.struct signature fields)

/-- A map lists its keys in strictly increasing order. -/
theorem Dict.toList_increasing (d : Dict) : d.toList.Pairwise (fun a b => a.1 < b.1) := by
  refine Std.TreeMap.ordered_keys_toList.imp ?_
  intro a b h
  exact compareOfLessAndEq_eq_lt.1 h

theorem Value.ordered_ofDict {d : Dict}
    (h : ∀ (k : String) (v : Value), d[k]? = some v → v.Ordered) : (Value.ofDict d).Ordered := by
  refine .dict d.toList_increasing ?_
  rintro ⟨k, v⟩ he
  exact h k v (Std.TreeMap.mem_toList_iff_getElem?_eq_some.1 he)

theorem Value.ordered_tagged {key : String} {content : Value} (h : content.Ordered) :
    (Value.tagged key content).Ordered := by
  refine .dict (List.pairwise_singleton _ _) ?_
  rintro e he
  rw [List.mem_singleton.1 he]
  exact h

end PackStream
