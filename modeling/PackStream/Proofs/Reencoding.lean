import PackStream.Proofs.Decoding.Acceptance
import PackStream.Proofs.Encoding.Shortest
import PackStream.Proofs.Layout.Canonical
import PackStream.Proofs.Layout.Unambiguous

/-!
# Writing again what was read

Whatever was read can be written. What is written is a shortest byte string for the value, and it
is what was read exactly if that was canonical: each size and each integer in the narrowest form,
and the keys of each dictionary in order.
-/

set_option autoImplicit false

namespace PackStream

/-- A value that was read is encoded, to a byte string that is read as that value again and is no
longer than any other that is, in particular than the one it was read from. -/
theorem Value.exists_toBytes_of_ofBytes {bs : Bytes} {v : Value} (read : ofBytes bs = .ok v) :
    ∃ short, v.toBytes .standard = .ok short ∧ short.length ≤ bs.length ∧
      ofBytes short = .ok v ∧ ∀ other, ofBytes other = .ok v → short.length ≤ other.length := by
  have form := Reader.ofBytes_eq_ok_iff.1 read
  have encoded : v.toBytes .standard = .ok (v.reference .standard) := form.toBytes_eq rfl
  have again := wire_of_toBytes ⟨rfl, rfl⟩ form.ordered encoded
  refine ⟨_, encoded, form.length_reference_le, Reader.ofBytes_eq_ok_iff.2 again, ?_⟩
  intro other same
  exact (Reader.ofBytes_eq_ok_iff.1 same).length_reference_le

/-- A dictionary in a wide form: its size, a key and an integer are wider than they need to be, and
its keys are out of order. -/
def wideForm : Bytes :=
  [0xD8, 2, 0x81, 0x62, 0xC9, 0, 1, 0xD0, 1, 0x61, 0xC0]

theorem ofBytes_wideForm :
    Value.ofBytes wideForm = .ok (.dict [("a", .null), ("b", .integer 1)]) := by
  have a : Wire (.string "a") [0xD0, 1, 0x61] := .string (.size8 (by decide))
  have b : Wire (.string "b") [0x81, 0x62] := .string (.tiny (by decide))
  have one : Wire (.integer 1) [0xC9, 0, 1] := .integer (.int16 (by decide))
  have each : WireEntries [("b", .integer 1), ("a", .null)]
      [0x81, 0x62, 0xC9, 0, 1, 0xD0, 1, 0x61, 0xC0] :=
    .cons b one (.cons a .null .nil)
  apply Reader.ofBytes_eq_ok_iff.2
  refine Wire.dict (h := [0xD8, 2]) ?_ each (by decide) (List.Perm.swap _ _ _) (by decide)
  exact .size8 (by decide)

theorem exists_toBytes_of_wideForm :
    Value.ofBytes wideForm = .ok (.dict [("a", .null), ("b", .integer 1)]) ∧
      ∃ short, (Value.dict [("a", .null), ("b", .integer 1)]).toBytes .standard = .ok short ∧
        short.length ≤ wideForm.length ∧
        Value.ofBytes short = .ok (.dict [("a", .null), ("b", .integer 1)]) ∧
        ∀ other, Value.ofBytes other = .ok (.dict [("a", .null), ("b", .integer 1)]) →
          short.length ≤ other.length :=
  ⟨ofBytes_wideForm, Value.exists_toBytes_of_ofBytes ofBytes_wideForm⟩

/-- A byte string that was read has exactly one layout, and the value is encoded to that byte
string again if and only if every node of the layout is narrow. -/
theorem Value.exists_layout_of_ofBytes {bs : Bytes} {v : Value} (read : ofBytes bs = .ok v) :
    ∃ t : Layout, t.WellFormed ∧ t.value = v ∧ t.bytes = bs ∧
      (∀ u : Layout, u.WellFormed → u.bytes = bs → u = t) ∧
      (v.toBytes .standard = .ok bs ↔ ∀ node ∈ t.nodes, node.Narrow) := by
  have form := Reader.ofBytes_eq_ok_iff.1 read
  have encoded : v.toBytes .standard = .ok (v.reference .standard) := form.toBytes_eq rfl
  obtain ⟨t, wellFormed, rfl, rfl⟩ := form.exists_layout
  have only (u : Layout) (hu : u.WellFormed) (same : u.bytes = t.bytes) : u = t :=
    (Layout.bytes_append_inj hu wellFormed (congrArg (· ++ []) same)).1
  refine ⟨t, wellFormed, rfl, rfl, only, fun h => ?_, fun canonical => ?_⟩
  · -- The canonical layout of the value has the same bytes, so it is the layout at hand.
    have nodes := canonical_layout form.ordered (form.fits 0)
    have admissible : t.value.layout.WellFormed := fun node hn => (nodes node hn).1
    have narrow : t.value.layout.Canonical := fun node hn => (nodes node hn).2
    have bytes : t.value.layout.bytes = t.bytes := by
      rw [Layout.bytes_eq_reference admissible narrow, value_layout form.ordered]
      rw [encoded] at h
      exact Except.ok.inj h
    rw [← only _ admissible bytes]
    exact narrow
  · rw [Layout.bytes_eq_reference wellFormed canonical]
    exact encoded

theorem exists_layout_of_wideForm :
    Value.ofBytes wideForm = .ok (.dict [("a", .null), ("b", .integer 1)]) ∧
      ∃ t : Layout, t.WellFormed ∧ t.value = .dict [("a", .null), ("b", .integer 1)] ∧
        t.bytes = wideForm ∧ (∀ u : Layout, u.WellFormed → u.bytes = wideForm → u = t) ∧
        ((Value.dict [("a", .null), ("b", .integer 1)]).toBytes .standard = .ok wideForm ↔
          ∀ node ∈ t.nodes, node.Narrow) :=
  ⟨ofBytes_wideForm, Value.exists_layout_of_ofBytes ofBytes_wideForm⟩

end PackStream
