import PackStream.Proofs.Decoding.Acceptance
import PackStream.Proofs.Encoding.Form
import PackStream.Value.Equality

/-!
# Reading back what was written

A value written in the standard format is read back as it was, bit for bit, whatever bytes follow
it. The two values are equal as numbers too, unless there is a NaN among their floats.
-/

set_option autoImplicit false

namespace PackStream

/-! ## Equality with itself -/

mutual

/-- The floats in a value, in the order in which they are written. -/
def Value.floats : Value → List Binary64
  | .null | .boolean _ | .integer _ | .string _ => []
  | .float x => [x]
  | .list vs => floatsItems vs
  | .dict es => floatsEntries es
  | .struct _ vs => floatsItems vs

/-- The floats in values one after the other. -/
def Value.floatsItems : List Value → List Binary64
  | [] => []
  | v :: vs => v.floats ++ floatsItems vs

/-- The floats in entries one after the other. -/
def Value.floatsEntries : List (String × Value) → List Binary64
  | [] => []
  | (_, v) :: es => v.floats ++ floatsEntries es

end

mutual

/-- A value equals itself unless there is a NaN in it. -/
theorem Value.numericEq_self_iff (v : Value) :
    v.numericEq v = true ↔ ∀ x ∈ v.floats, x.isNaN = false := by
  cases v with
  | null => simp [numericEq, floats]
  | boolean b => simp [numericEq, floats]
  | integer i => simp [numericEq, floats]
  | float x => simp [numericEq, floats]
  | string s => simp [numericEq, floats]
  | list vs =>
    rw [numericEq, floats]
    exact numericEqItems_self_iff vs
  | dict es =>
    rw [numericEq, floats]
    exact numericEqEntries_self_iff es
  | struct signature vs =>
    rw [numericEq, floats, beq_self_eq_true, Bool.true_and]
    exact numericEqItems_self_iff vs

theorem Value.numericEqItems_self_iff (vs : List Value) :
    numericEqItems vs vs = true ↔ ∀ x ∈ floatsItems vs, x.isNaN = false := by
  cases vs with
  | nil => simp [numericEqItems, floatsItems]
  | cons v vs =>
    rw [numericEqItems, floatsItems, Bool.and_eq_true, List.forall_mem_append]
    exact and_congr (numericEq_self_iff v) (numericEqItems_self_iff vs)

theorem Value.numericEqEntries_self_iff (es : List (String × Value)) :
    numericEqEntries es es = true ↔ ∀ x ∈ floatsEntries es, x.isNaN = false := by
  match es with
  | [] => simp [numericEqEntries, floatsEntries]
  | (k, v) :: es =>
    rw [numericEqEntries, floatsEntries, beq_self_eq_true, Bool.true_and, Bool.and_eq_true,
      List.forall_mem_append]
    exact and_congr (numericEq_self_iff v) (numericEqEntries_self_iff es)

end

/-! ## The round trip -/

/-- The encoding of a value is read back as that value from any cursor that stands before it, and
whatever follows it is left. -/
theorem Reader.value_of_toBytes {options : Options} {v : Value} {bs : Bytes}
    (standard : options.IsStandard) (ordered : v.Ordered) (encoded : v.toBytes options = .ok bs)
    (rest : Bytes) (begun : Nat) (events : Array Event) :
    ∃ u d, Reader.value { rest := bs ++ rest, begun, events } = .ok u d ∧ d.rest = rest ∧
      u = v ∧ (u.numericEq v = true ↔ ∀ x ∈ v.floats, x.isNaN = false) := by
  have form := wire_of_toBytes standard ordered encoded
  obtain ⟨d, read, left⟩ := value_of_wire form rest begun events
  exact ⟨v, d, read, left, rfl, v.numericEq_self_iff⟩

/-- A structure around a dictionary with a NaN in a list. -/
def nanInStruct : Value :=
  .struct 0x4E [.dict [("a", .list [.float ⟨0x7FF8000000000001⟩, .integer (-17)]),
    ("é", .boolean true)]]

theorem Reader.value_of_toBytes_nanInStruct :
    let options : Options := { depthLimit := some 3 }
    let bs : Bytes := [0xB1, 0x4E, 0xA2, 0x81, 0x61, 0x92, 0xC1, 0x7F, 0xF8, 0, 0, 0, 0, 0, 1, 0xC8,
      0xEF, 0x82, 0xC3, 0xA9, 0xC3]
    options.IsStandard ∧ nanInStruct.Ordered ∧ nanInStruct.toBytes options = .ok bs ∧
      ∃ u d, Reader.value { rest := bs ++ [0xFF] } = .ok u d ∧ d.rest = [0xFF] ∧
        u = nanInStruct ∧
        (u.numericEq nanInStruct = true ↔ ∀ x ∈ nanInStruct.floats, x.isNaN = false) := by
  intro options bs
  have standard : options.IsStandard := ⟨rfl, rfl⟩
  have ordered : nanInStruct.Ordered := by
    have list : (Value.list [.float ⟨0x7FF8000000000001⟩, .integer (-17)]).Ordered :=
      .list (by simp [Value.Ordered.float, Value.Ordered.integer])
    exact .struct (by simpa using .dict (by decide) (by simp [list, Value.Ordered.boolean]))
  have encoded : nanInStruct.toBytes options = .ok bs :=
    (Value.toBytes_eq_reference options nanInStruct).trans rfl
  exact ⟨standard, ordered, encoded, value_of_toBytes standard ordered encoded [0xFF] 0 #[]⟩

end PackStream
