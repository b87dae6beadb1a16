import PackStream.Proofs.Encoding.Form

/-!
# Encodings are shortest forms

Whatever has a form can be encoded, since a header cannot announce more than its category can, and
no form of it is shorter than its encoding.

Main statements: `Wire.toBytes_eq`, a value with a form is encoded to its reference bytes, and
`Wire.length_reference_le`.
-/

set_option autoImplicit false

namespace PackStream

/-! ## Forms are of ordered values -/

mutual

theorem Wire.ordered {v : Value} {w : Bytes} (h : Wire v w) : v.Ordered := by
  match h with
  | .null => exact .null
  | .boolean b => exact .boolean b
  | .float x => exact .float x
  | .integer _ => exact .integer _
  | .string _ => exact .string _
  | .list _ each => exact .list each.ordered
  | .dict _ each _ same sorted =>
    have inner := each.ordered
    exact .dict sorted fun e he => inner e (same.mem_iff.2 he)
  | .struct _ each => exact .struct each.ordered

theorem WireItems.ordered {vs : List Value} {w : Bytes} (h : WireItems vs w) :
    ∀ v ∈ vs, v.Ordered := by
  match h with
  | .nil => exact List.forall_mem_nil _
  | .cons first others => exact List.forall_mem_cons.2 ⟨first.ordered, others.ordered⟩

theorem WireEntries.ordered {es : List (String × Value)} {w : Bytes} (h : WireEntries es w) :
    ∀ e ∈ es, e.2.Ordered := by
  match h with
  | .nil => exact List.forall_mem_nil _
  | .cons _ content others => exact List.forall_mem_cons.2 ⟨content.ordered, others.ordered⟩

end

/-! ## Sizes on the wire can be announced -/

theorem Value.mem_sizedNodesEntries {depth : Nat} {es : List (String × Value)} {node : SizedNode} :
    node ∈ sizedNodesEntries depth es ↔
      ∃ e ∈ es, node = ⟨.string, e.1.utf8ByteSize, depth⟩ ∨ node ∈ e.2.sizedNodes depth := by
  induction es with
  | nil => simp [sizedNodesEntries]
  | cons e es ih => simp [sizedNodesEntries, ih, or_assoc]

mutual

/-- The sizes in a value with a form can all be announced. -/
theorem Wire.fits {v : Value} {w : Bytes} (h : Wire v w) (depth : Nat) :
    ∀ node ∈ v.sizedNodes depth, node.Fits := by
  match h with
  | .null | .boolean _ | .float _ | .integer _ => exact List.forall_mem_nil _
  | .string header =>
    have own := SizeHeader.fits (c := .string) header
    exact List.forall_mem_singleton.2 own
  | .list header each =>
    have own := SizeHeader.fits (c := .list) header
    exact List.forall_mem_cons.2 ⟨own, each.fits (depth + 1)⟩
  | .dict header each _ same _ =>
    have own := SizeHeader.fits (c := .dict) header
    rw [same.length_eq] at own
    have inner := each.fits (depth + 1)
    refine List.forall_mem_cons.2 ⟨own, fun node hn => inner node ?_⟩
    obtain ⟨e, he, part⟩ := Value.mem_sizedNodesEntries.1 hn
    exact Value.mem_sizedNodesEntries.2 ⟨e, same.mem_iff.2 he, part⟩
  | .struct header each =>
    have own := SizeHeader.fits (c := .struct) header
    exact List.forall_mem_cons.2 ⟨own, each.fits (depth + 1)⟩

theorem WireItems.fits {vs : List Value} {w : Bytes} (h : WireItems vs w) (depth : Nat) :
    ∀ node ∈ Value.sizedNodesItems depth vs, node.Fits := by
  match h with
  | .nil => exact List.forall_mem_nil _
  | .cons first others => exact List.forall_mem_append.2 ⟨first.fits depth, others.fits depth⟩

theorem WireEntries.fits {es : List (String × Value)} {w : Bytes} (h : WireEntries es w)
    (depth : Nat) : ∀ node ∈ Value.sizedNodesEntries depth es, node.Fits := by
  match h with
  | .nil => exact List.forall_mem_nil _
  | .cons key content others =>
    have inner := List.forall_mem_append.2 ⟨content.fits depth, others.fits depth⟩
    exact List.forall_mem_cons.2 ⟨key.fits depth _ (List.mem_singleton.2 rfl), inner⟩

end

/-- Without a depth limit, nodes whose sizes can be announced do not offend. -/
theorem SizedNode.offence_eq_none {options : Options} (unlimited : options.depthLimit = none)
    {node : SizedNode} (h : node.Fits) : node.offence options = none := by
  rw [offence, if_neg (Nat.not_lt.2 h), Script.depthExceeded?, unlimited]
  split <;> rfl

/-- A value with a form is encoded, and to its reference bytes. -/
theorem Wire.toBytes_eq {v : Value} {w : Bytes} (h : Wire v w) {options : Options}
    (unlimited : options.depthLimit = none) : v.toBytes options = .ok (v.reference options) := by
  have offence : (v.sizedNodes 0).findSome? (SizedNode.offence options) = none :=
    List.findSome?_eq_none_iff.2 fun node hn =>
      SizedNode.offence_eq_none unlimited (h.fits 0 node hn)
  rw [Value.toBytes_eq_reference, offence]

/-! ## Lengths -/

/-- Every header of a size is at least as long as the one that is written. -/
theorem SizeHeader.length_reference_le {c : Category} {n : Nat} {h : Bytes}
    (header : SizeHeader c.family n h) : (Reference.header .full c.family n).length ≤ h.length := by
  obtain ⟨narrow, b, narrowest, present⟩ := c.family.exists_narrowest header.fits
  obtain ⟨width, b', holds, -, rfl⟩ := sizeHeader_iff.1 header
  have le := narrowest.prefixWidth_le holds
  rw [Reference.header_full c narrowest present, List.length_cons, List.length_cons,
    Bytes.length_bigEndian, Bytes.length_bigEndian]
  omega

theorem IntegerForm.length_reference_le {i : Int64} {w : Bytes} (form : IntegerForm i w) :
    (Reference.integer i.toInt).length ≤ w.length := by
  rw [Reference.integer_eq_bytes]
  obtain rfl | longer := form.eq_or_length_lt
  · exact Nat.le_refl _
  · exact Nat.le_of_lt longer

/-- The order of entries does not matter for the length of their encodings. -/
theorem Value.length_referenceEntries_of_perm {options : Options} {es fs : List (String × Value)}
    (h : es.Perm fs) :
    (referenceEntries options es).length = (referenceEntries options fs).length := by
  induction h with
  | nil => rfl
  | cons e _ ih => simp only [referenceEntries, List.length_append, ih]
  | swap e f es =>
    simp only [referenceEntries, List.length_append]
    omega
  | trans _ _ first second => exact first.trans second

mutual

/-- Every form of a value is at least as long as its encoding. -/
theorem Wire.length_reference_le {v : Value} {w : Bytes} (h : Wire v w) :
    (v.reference .standard).length ≤ w.length := by
  match h with
  | .null | .boolean _ | .float _ => exact Nat.le_refl _
  | .integer form => exact form.length_reference_le
  | .string header =>
    have own := SizeHeader.length_reference_le (c := .string) header
    simp only [Value.reference, Reference.string, List.length_append]
    exact Nat.add_le_add_right own _
  | .list header each =>
    have own := SizeHeader.length_reference_le (c := .list) header
    have inner := each.length_reference_le
    simp only [Value.reference, List.length_append]
    exact Nat.add_le_add own inner
  | .dict header each _ same _ =>
    have own := SizeHeader.length_reference_le (c := .dict) header
    have inner := each.length_reference_le
    rw [same.length_eq] at own
    rw [Value.length_referenceEntries_of_perm same] at inner
    simp only [Value.reference, List.length_append]
    exact Nat.add_le_add own inner
  | .struct header each =>
    have own := SizeHeader.length_reference_le (c := .struct) header
    have inner := each.length_reference_le
    simp only [Value.reference, Reference.structHeader, Options.standard, List.length_append,
      List.length_cons, List.length_nil]
    simp only [Category.family, Options.standard] at own inner
    omega

theorem WireItems.length_reference_le {vs : List Value} {w : Bytes} (h : WireItems vs w) :
    (Value.referenceItems .standard vs).length ≤ w.length := by
  match h with
  | .nil => exact Nat.le_refl _
  | .cons first others =>
    simp only [Value.referenceItems, List.length_append]
    exact Nat.add_le_add first.length_reference_le others.length_reference_le

theorem WireEntries.length_reference_le {es : List (String × Value)} {w : Bytes}
    (h : WireEntries es w) : (Value.referenceEntries .standard es).length ≤ w.length := by
  match h with
  | .nil => exact Nat.le_refl _
  | .cons key content others =>
    have entry := Nat.add_le_add key.length_reference_le content.length_reference_le
    simp only [Value.referenceEntries, List.length_append]
    exact Nat.add_le_add entry others.length_reference_le

end

end PackStream
