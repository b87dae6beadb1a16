import PackStream.Proofs.Encoding.Reference
import PackStream.Proofs.Wire.Grammar
import PackStream.Value.Ordered

/-!
# Encodings are forms

What is written in the standard format is one of the forms of the value: `wire_reference` for the
reference bytes of a value all of whose sizes can be announced, and `wire_of_toBytes` for whatever
an encoder returns, under any depth limit.
-/

set_option autoImplicit false

namespace PackStream

/-- The options that write the standard format, whatever their depth limit. -/
def Options.IsStandard (options : Options) : Prop :=
  options.lengths = .full ∧ options.signature = .afterHeader

/-! ## Headers -/

/-- The header of a size is the marker of its narrowest class and the size in that class. -/
theorem Reference.header_full (c : Category) {n : Nat} {width : SizeClass} {b : UInt8}
    (narrowest : width.Narrowest n) (present : c.family.marker? width = some b) :
    header .full c.family n = b :: Bytes.bigEndian width.prefixWidth n := by
  unfold header
  cases width with
  | tiny m =>
    obtain ⟨tiny, rfl⟩ := narrowest
    rw [c.marker?_tiny tiny] at present
    cases present
    exact if_pos tiny
  | size8 =>
    obtain ⟨lo, hi⟩ := narrowest
    cases present
    rw [if_neg (by omega), if_pos hi]
    rw [SizeClass.prefixWidth, Bytes.bigEndian_one]
  | size16 =>
    obtain ⟨lo, hi⟩ := narrowest
    cases present
    rw [if_neg (by omega), if_neg (by omega), if_pos hi]
    rfl
  | size32 =>
    obtain ⟨lo, -⟩ := narrowest
    rw [if_neg (by omega), if_neg (by omega), if_neg (by omega),
      show c.family.size32 = some b from present]
    rfl

theorem sizeHeader_reference (c : Category) {n : Nat} (h : n ≤ c.family.maxSize) :
    SizeHeader c.family n (Reference.header .full c.family n) := by
  obtain ⟨width, b, narrowest, present⟩ := c.family.exists_narrowest h
  exact sizeHeader_iff.2
    ⟨width, b, narrowest.holds, present, Reference.header_full c narrowest present⟩

theorem wire_reference_string {options : Options} (standard : options.IsStandard) {s : String}
    (h : s.utf8ByteSize ≤ MarkerFamily.string.maxSize) :
    Wire (.string s) (Reference.string options s) := by
  unfold Reference.string
  rw [standard.1]
  exact .string (sizeHeader_reference .string h)

/-! ## Values -/

mutual

/-- The reference bytes of a value are one of its forms. -/
theorem wire_reference {options : Options} (standard : options.IsStandard) {depth : Nat}
    {v : Value} (ordered : v.Ordered) (fits : ∀ node ∈ v.sizedNodes depth, node.Fits) :
    Wire v (v.reference options) := by
  cases v with
  | null => exact .null
  | boolean b => exact .boolean b
  | integer i =>
    have holds := (IntWidth.narrowest_ofInt i).holds
    exact .integer (integerForm_iff.2 ⟨_, holds, Reference.integer_eq_bytes _⟩)
  | float x => exact .float x
  | string s => exact wire_reference_string standard (fits _ (List.mem_singleton.2 rfl))
  | list vs =>
    cases ordered with
    | list each =>
      obtain ⟨own, inner⟩ := List.forall_mem_cons.1 fits
      have header := sizeHeader_reference .list own
      rw [Value.reference, standard.1]
      exact .list header (wire_referenceItems standard each inner)
  | dict es =>
    cases ordered with
    | dict keys each =>
      obtain ⟨own, inner⟩ := List.forall_mem_cons.1 fits
      have header := sizeHeader_reference .dict own
      rw [Value.reference, standard.1]
      exact .dict header (wire_referenceEntries standard each inner) (Sorted.nodup_keys keys)
        (List.Perm.refl es) keys
  | struct signature vs =>
    cases ordered with
    | struct each =>
      obtain ⟨own, inner⟩ := List.forall_mem_cons.1 fits
      have header := sizeHeader_reference .struct own
      rw [Value.reference, Reference.structHeader, standard.1, standard.2, List.append_assoc]
      exact .struct header (wire_referenceItems standard each inner)

theorem wire_referenceItems {options : Options} (standard : options.IsStandard) {depth : Nat}
    {vs : List Value} (ordered : ∀ v ∈ vs, v.Ordered)
    (fits : ∀ node ∈ Value.sizedNodesItems depth vs, node.Fits) :
    WireItems vs (Value.referenceItems options vs) := by
  cases vs with
  | nil => exact .nil
  | cons v vs =>
    obtain ⟨first, others⟩ := List.forall_mem_cons.1 ordered
    obtain ⟨own, inner⟩ := List.forall_mem_append.1 fits
    exact .cons (wire_reference standard first own) (wire_referenceItems standard others inner)

theorem wire_referenceEntries {options : Options} (standard : options.IsStandard) {depth : Nat}
    {es : List (String × Value)} (ordered : ∀ e ∈ es, e.2.Ordered)
    (fits : ∀ node ∈ Value.sizedNodesEntries depth es, node.Fits) :
    WireEntries es (Value.referenceEntries options es) := by
  match es with
  | [] => exact .nil
  | (k, v) :: es =>
    obtain ⟨first, others⟩ := List.forall_mem_cons.1 ordered
    obtain ⟨key, inner⟩ := List.forall_mem_cons.1 fits
    obtain ⟨own, rest⟩ := List.forall_mem_append.1 inner
    exact .cons (wire_reference_string standard key) (wire_reference standard first own)
      (wire_referenceEntries standard others rest)

end

/-! ## Encoders -/

theorem SizedNode.fits_of_offence {options : Options} {node : SizedNode}
    (h : node.offence options = none) : node.Fits := by
  unfold offence at h
  split at h
  · cases h
  · rename_i fits
    exact Nat.not_lt.1 fits

/-- The sizes in a value that is encoded can all be announced. -/
theorem Value.fits_of_toBytes {options : Options} {v : Value} {bs : Bytes}
    (encoded : v.toBytes options = .ok bs) : ∀ node ∈ v.sizedNodes 0, node.Fits := by
  intro node mem
  exact SizedNode.fits_of_offence ((toBytes_eq_ok_iff.1 encoded).1 node mem)

/-- Whatever an encoder returns in the standard format is a form of the value. -/
theorem wire_of_toBytes {options : Options} (standard : options.IsStandard) {v : Value}
    (ordered : v.Ordered) {bs : Bytes} (h : v.toBytes options = .ok bs) : Wire v bs := by
  have form := wire_reference standard ordered (Value.fits_of_toBytes h)
  rwa [(Value.toBytes_eq_ok_iff.1 h).2] at form

end PackStream
