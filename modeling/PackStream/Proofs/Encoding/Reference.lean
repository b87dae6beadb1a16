import PackStream.Proofs.Encoding.Run
import PackStream.Proofs.Value.Nodes
import PackStream.Proofs.Wire.Integer

/-!
# The reference encoding

The bytes of a value as one function of the value and the options, with no script, no sink and no
failure. A script that is not refused hands over exactly these bytes, and it is refused exactly at
the first node that offends against the options.

Main statements: `refusal?_value` and `output_value`.
-/

set_option autoImplicit false

namespace PackStream

/-! ## Reference bytes -/

namespace Reference

/-- The size field after a 16-bit or 32-bit marker. -/
def lengthField (lengths : LengthForm) (width n : Nat) : Bytes :=
  match lengths with
  | .full => Bytes.bigEndian width n
  | .lowByte => [UInt8.ofNat n]

/-- The header of a size. -/
def header (lengths : LengthForm) (f : MarkerFamily) (n : Nat) : Bytes :=
  if n ≤ 15 then [f.tiny + UInt8.ofNat n]
  else if n ≤ 255 then [f.size8, UInt8.ofNat n]
  else if n ≤ 65535 then f.size16 :: lengthField lengths 2 n
  else f.size32.toList ++ lengthField lengths 4 n

/-- What is noticed about the header of a size. In low-byte form a size that needs a wider field
loses all but its low byte. -/
def notices (lengths : LengthForm) (f : MarkerFamily) (n : Nat) : List Event :=
  match lengths with
  | .full => []
  | .lowByte => if n ≤ 255 then [] else [.lengthTruncated f.name n (UInt8.ofNat n)]

theorem length_header_pos (lengths : LengthForm) (f : MarkerFamily) (n : Nat) :
    0 < (header lengths f n).length := by
  unfold header
  split
  · exact Nat.one_pos
  · split
    · exact Nat.zero_lt_succ 1
    · split
      · exact Nat.zero_lt_succ _
      · rw [List.length_append]
        apply Nat.add_pos_right
        cases lengths with
        | full => exact Nat.zero_lt_succ 3
        | lowByte => exact Nat.one_pos

/-- An integer: a byte of its own, or a marker before its two's complement form in the fewest bytes
that hold it. -/
def integer (i : Int) : Bytes :=
  if -16 ≤ i ∧ i ≤ 127 then twosComplement 1 i
  else if -0x80 ≤ i ∧ i < 0x80 then 0xC8 :: twosComplement 1 i
  else if -0x8000 ≤ i ∧ i < 0x8000 then 0xC9 :: twosComplement 2 i
  else if -0x80000000 ≤ i ∧ i < 0x80000000 then 0xCA :: twosComplement 4 i
  else 0xCB :: twosComplement 8 i

theorem integer_eq_bytes (i : Int) : integer i = (IntWidth.ofInt i).bytes i := by
  simp only [IntWidth.ofInt, apply_ite (IntWidth.bytes · i)]
  rfl

/-- A string, whose size is its length in bytes. -/
def string (options : Options) (s : String) : Bytes :=
  header options.lengths .string s.utf8ByteSize ++ Utf8.encode s

/-- The header and the signature of a structure. -/
def structHeader (options : Options) (signature : UInt8) (n : Nat) : Bytes :=
  match options.signature with
  | .afterHeader => header options.lengths .struct n ++ [signature]
  | .beforeHeader => signature :: header options.lengths .struct n

end Reference

mutual

/-- The encoding of a value under the length form and the signature place of the options. -/
def Value.reference (options : Options) : Value → Bytes
  | .null => [0xC0]
  | .boolean b => [if b then 0xC3 else 0xC2]
  | .integer i => Reference.integer i.toInt
  | .float x => 0xC1 :: Bytes.bigEndian 8 x.bits.toNat
  | .string s => Reference.string options s
  | .list vs => Reference.header options.lengths .list vs.length ++ referenceItems options vs
  | .dict es => Reference.header options.lengths .dict es.length ++ referenceEntries options es
  | .struct signature vs =>
    Reference.structHeader options signature vs.length ++ referenceItems options vs

/-- The encodings of values one after the other. -/
def Value.referenceItems (options : Options) : List Value → Bytes
  | [] => []
  | v :: vs => v.reference options ++ referenceItems options vs

/-- The encodings of entries one after the other, each key before its value. -/
def Value.referenceEntries (options : Options) : List (String × Value) → Bytes
  | [] => []
  | (k, v) :: es =>
    Reference.string options k ++ v.reference options ++ referenceEntries options es

end

theorem Value.referenceItems_eq_flatMap (options : Options) (vs : List Value) :
    referenceItems options vs = vs.flatMap (reference options) := by
  induction vs with
  | nil => rfl
  | cons v vs ih => rw [referenceItems, ih, List.flatMap_cons]

theorem Value.referenceEntries_eq_flatMap (options : Options) (es : List (String × Value)) :
    referenceEntries options es =
      es.flatMap fun e => Reference.string options e.1 ++ e.2.reference options := by
  induction es with
  | nil => rfl
  | cons e es ih => rw [referenceEntries, ih, List.flatMap_cons]

/-! ## Offences -/

/-- Why a node cannot be written under the options. A size that no header of the category can
announce counts before an aggregate that stands too deep. -/
def SizedNode.offence (options : Options) (node : SizedNode) : Option EncodeError :=
  if node.category.family.maxSize < node.size then
    some (.lengthOverflow node.category.family.name node.size node.category.family.maxSize)
  else if node.category = .string then none
  else (Script.depthExceeded? options node.depth).map .nestingTooDeep

namespace Script

/-- The header of a size that fits is written in one piece, after what is noticed about it. -/
theorem steps_header_of_fits (options : Options) {c : Category} {n : Nat}
    (h : n ≤ c.family.maxSize) :
    (header #[] options c.family n).toList =
      (Reference.notices options.lengths c.family n).map .notice ++
        [.write (Reference.header options.lengths c.family n)] := by
  by_cases tiny : n ≤ 15
  · have size : SizeClass.ofSize? n = some (.tiny (UInt8.ofNat n)) :=
      SizeClass.ofSize?_eq_some_iff.2 ⟨tiny, rfl⟩
    have marker := c.marker?_tiny tiny
    have byte : n ≤ 255 := by omega
    cases lengths : options.lengths <;>
      simp [header, size, marker, write, Reference.notices, Reference.header, tiny, byte]
  by_cases byte : n ≤ 255
  · have size : SizeClass.ofSize? n = some .size8 :=
      SizeClass.ofSize?_eq_some_iff.2 ⟨by omega, byte⟩
    cases lengths : options.lengths <;>
      simp [header, size, MarkerFamily.marker?, write, Reference.notices, Reference.header, tiny,
        byte, SizeClass.prefixWidth, Bytes.bigEndian_one]
  by_cases word : n ≤ 65535
  · have size : SizeClass.ofSize? n = some .size16 :=
      SizeClass.ofSize?_eq_some_iff.2 ⟨by omega, word⟩
    cases lengths : options.lengths <;>
      simp [header, size, MarkerFamily.marker?, write, notice, Reference.notices,
        Reference.header, Reference.lengthField, tiny, byte, word, lengths,
        SizeClass.prefixWidth]
  · have present : ∃ marker, c.family.size32 = some marker := by
      cases c with
      | string | list | dict => exact ⟨_, rfl⟩
      | struct => exact absurd h word
    obtain ⟨marker, present⟩ := present
    have bound : n < 0x100000000 := by
      simp only [MarkerFamily.maxSize, present, Option.isSome_some, if_true] at h
      omega
    have size : SizeClass.ofSize? n = some .size32 :=
      SizeClass.ofSize?_eq_some_iff.2 ⟨by omega, bound⟩
    cases lengths : options.lengths <;>
      simp [header, size, MarkerFamily.marker?, present, write, notice, Reference.notices,
        Reference.header, Reference.lengthField, tiny, byte, word, lengths,
        SizeClass.prefixWidth]

/-- Notices refuse nothing and hand nothing over. -/
theorem refusal?_output_notices (events : List Event) (bs : Bytes) :
    refusal? (events.map .notice ++ [.write bs]) = none ∧
      output (events.map .notice ++ [.write bs]) = bs := by
  induction events with
  | nil => exact ⟨rfl, List.append_nil bs⟩
  | cons event events ih => exact ih

theorem header_of_fits (options : Options) {c : Category} {n : Nat} (h : n ≤ c.family.maxSize) :
    refusal? (header #[] options c.family n).toList = none ∧
      output (header #[] options c.family n).toList =
        Reference.header options.lengths c.family n := by
  rw [steps_header_of_fits options h]
  exact refusal?_output_notices _ _

theorem steps_header_of_not_fits (options : Options) {f : MarkerFamily} {n : Nat}
    (h : f.maxSize < n) :
    (header #[] options f n).toList = [.refuse (.lengthOverflow f.name n f.maxSize)] := by
  unfold header
  cases size : SizeClass.ofSize? n with
  | none => rfl
  | some width =>
    dsimp only
    cases present : f.marker? width with
    | none => rfl
    | some marker =>
      have narrowest := SizeClass.ofSize?_eq_some_iff.1 size
      have fits := MarkerFamily.le_maxSize narrowest.holds present
      exact absurd h (Nat.not_lt.2 fits)

/-! ## Refusals -/

theorem refusal?_header (options : Options) (f : MarkerFamily) (n : Nat) :
    refusal? (header #[] options f n).toList =
      if f.maxSize < n then some (.lengthOverflow f.name n f.maxSize) else none := by
  by_cases fits : n ≤ f.maxSize
  · obtain ⟨width, marker, narrowest, present⟩ := f.exists_narrowest fits
    have size := SizeClass.ofSize?_eq_some_iff.2 narrowest
    rw [if_neg (Nat.not_lt.2 fits)]
    simp only [header, size, present]
    cases width <;> cases options.lengths <;> rfl
  · rw [if_pos (Nat.lt_of_not_le fits)]
    rw [steps_header_of_not_fits options (Nat.lt_of_not_le fits)]
    rfl

theorem refusal?_structHeader (options : Options) (signature : UInt8) (n : Nat) :
    refusal? (structHeader #[] options signature n).toList =
      refusal? (header #[] options .struct n).toList := by
  unfold structHeader
  cases options.signature with
  | afterHeader =>
    rw [write, Array.toList_push, refusal?_append]
    exact Option.or_none
  | beforeHeader =>
    dsimp only
    rw [toList_header, refusal?_append]
    rfl

/-- An aggregate is refused for its own node first, then for what it contains. -/
theorem refusal?_aggregate {options : Options} {c : Category} (hc : c ≠ .string) (depth : Nat)
    {n : Nat} {xs : List Step}
    (hx : refusal? xs = refusal? (header #[] options c.family n).toList) (steps : List Step) :
    refusal? (xs ++ content options depth steps) =
      (SizedNode.offence options ⟨c, n, depth⟩).or (refusal? steps) := by
  rw [refusal?_append, hx, refusal?_header, SizedNode.offence, if_neg hc, content]
  dsimp only
  by_cases large : c.family.maxSize < n
  · rw [if_pos large, if_pos large]
    rfl
  · rw [if_neg large, if_neg large]
    cases depthExceeded? options depth <;> rfl

theorem refusal?_string (options : Options) (depth : Nat) (s : String) :
    refusal? (string #[] options s).toList =
      SizedNode.offence options ⟨.string, s.utf8ByteSize, depth⟩ := by
  rw [steps_string, refusal?_append]
  exact Option.or_none.trans (refusal?_header options .string s.utf8ByteSize)

mutual

/-- A value is refused for the first of its nodes that offends. -/
theorem refusal?_value (options : Options) (depth : Nat) (v : Value) :
    refusal? (value options depth v #[]).toList =
      (v.sizedNodes depth).findSome? (SizedNode.offence options) := by
  cases v with
  | null | boolean | float => rfl
  | integer i =>
    simp only [value, integer, Value.sizedNodes, List.findSome?_nil]
    cases (IntWidth.ofInt i.toInt).marker? <;> rfl
  | string s =>
    rw [value, refusal?_string options depth, Value.sizedNodes, List.findSome?_singleton]
  | list vs =>
    have own : refusal? (header #[] options .list vs.length).toList = _ := rfl
    rw [steps_list, refusal?_aggregate (c := .list) (by simp) depth own, refusal?_items,
      Value.sizedNodes, List.findSome?_cons]
    cases SizedNode.offence options ⟨.list, vs.length, depth⟩ <;> rfl
  | dict es =>
    have own : refusal? (header #[] options .dict es.length).toList = _ := rfl
    rw [steps_dict, refusal?_aggregate (c := .dict) (by simp) depth own, refusal?_entries,
      Value.sizedNodes, List.findSome?_cons]
    cases SizedNode.offence options ⟨.dict, es.length, depth⟩ <;> rfl
  | struct signature vs =>
    have own := refusal?_structHeader options signature vs.length
    rw [steps_struct, refusal?_aggregate (c := .struct) (by simp) depth own, refusal?_items,
      Value.sizedNodes, List.findSome?_cons]
    cases SizedNode.offence options ⟨.struct, vs.length, depth⟩ <;> rfl

theorem refusal?_items (options : Options) (depth : Nat) (vs : List Value) :
    refusal? (items options depth vs #[]).toList =
      (Value.sizedNodesItems depth vs).findSome? (SizedNode.offence options) := by
  cases vs with
  | nil => rfl
  | cons v vs =>
    rw [steps_items_cons, refusal?_append, refusal?_value, refusal?_items,
      Value.sizedNodesItems, List.findSome?_append]

theorem refusal?_entries (options : Options) (depth : Nat) (es : List (String × Value)) :
    refusal? (entries options depth es #[]).toList =
      (Value.sizedNodesEntries depth es).findSome? (SizedNode.offence options) := by
  match es with
  | [] => rfl
  | (k, v) :: es =>
    rw [steps_entries_cons, refusal?_append, refusal?_append, refusal?_string options depth,
      refusal?_value, refusal?_entries, Value.sizedNodesEntries, List.findSome?_cons,
      List.findSome?_append]
    cases SizedNode.offence options ⟨.string, k.utf8ByteSize, depth⟩ <;> rfl

end

/-! ## Output -/

theorem output_append_of_refusal? {xs ys : List Step} (h : refusal? (xs ++ ys) = none) :
    refusal? xs = none ∧ refusal? ys = none ∧ output (xs ++ ys) = output xs ++ output ys := by
  rw [refusal?_append, Option.or_eq_none_iff] at h
  exact ⟨h.1, h.2, output_append h.1 ys⟩

theorem output_header {options : Options} {c : Category} {n : Nat}
    (h : refusal? (header #[] options c.family n).toList = none) :
    output (header #[] options c.family n).toList =
      Reference.header options.lengths c.family n := by
  rw [refusal?_header] at h
  split at h
  · cases h
  · rename_i fits
    exact (header_of_fits options (Nat.le_of_not_lt fits)).2

theorem output_structHeader {options : Options} {signature : UInt8} {n : Nat}
    (h : refusal? (structHeader #[] options signature n).toList = none) :
    output (structHeader #[] options signature n).toList =
      Reference.structHeader options signature n := by
  rw [refusal?_structHeader] at h
  have own := output_header (c := .struct) h
  unfold structHeader Reference.structHeader
  cases options.signature with
  | afterHeader =>
    dsimp only
    rw [write, Array.toList_push, output_append h]
    exact congrArg (· ++ [signature]) own
  | beforeHeader =>
    dsimp only
    rw [toList_header]
    exact congrArg (signature :: ·) own

theorem output_content {options : Options} {depth : Nat} {steps : List Step}
    (h : refusal? (content options depth steps) = none) :
    refusal? steps = none ∧ output (content options depth steps) = output steps := by
  unfold content at h ⊢
  cases exceeded : depthExceeded? options depth with
  | some limit =>
    rw [exceeded] at h
    cases h
  | none =>
    rw [exceeded] at h
    exact ⟨h, rfl⟩

theorem output_integer (i : Int64) :
    output (integer #[] i).toList = Reference.integer i.toInt := by
  rw [Reference.integer_eq_bytes, integer, IntWidth.bytes]
  cases IntWidth.ofInt i.toInt with
  | tiny =>
    show Bytes.bigEndian 1 _ ++ [] = _
    rw [List.append_nil, bigEndian_toUInt64 (by decide)]
    rfl
  | int8 | int16 | int32 | int64 =>
    show _ :: (Bytes.bigEndian _ _ ++ []) = _ :: _
    rw [List.append_nil, bigEndian_toUInt64 (by decide)]

theorem output_string {options : Options} {s : String}
    (h : refusal? (string #[] options s).toList = none) :
    output (string #[] options s).toList = Reference.string options s := by
  rw [steps_string] at h ⊢
  obtain ⟨fits, -, parts⟩ := output_append_of_refusal? h
  have head : output (header #[] options .string s.utf8ByteSize).toList = _ :=
    output_header (c := .string) fits
  rw [parts, head]
  exact congrArg _ (List.append_nil _)

mutual

/-- A value that is not refused hands over its reference encoding. -/
theorem output_value {options : Options} {depth : Nat} {v : Value}
    (h : refusal? (value options depth v #[]).toList = none) :
    output (value options depth v #[]).toList = v.reference options := by
  cases v with
  | null => rfl
  | boolean b => cases b <;> rfl
  | integer i => exact output_integer i
  | float x => exact congrArg (0xC1 :: ·) (List.append_nil _)
  | string s => exact output_string h
  | list vs =>
    rw [steps_list] at h ⊢
    obtain ⟨fits, inner, parts⟩ := output_append_of_refusal? h
    obtain ⟨each, same⟩ := output_content inner
    have head : output (header #[] options .list vs.length).toList = _ :=
      output_header (c := .list) fits
    rw [parts, head, same, output_items each]
    rfl
  | dict es =>
    rw [steps_dict] at h ⊢
    obtain ⟨fits, inner, parts⟩ := output_append_of_refusal? h
    obtain ⟨each, same⟩ := output_content inner
    have head : output (header #[] options .dict es.length).toList = _ :=
      output_header (c := .dict) fits
    rw [parts, head, same, output_entries each]
    rfl
  | struct signature vs =>
    rw [steps_struct] at h ⊢
    obtain ⟨fits, inner, parts⟩ := output_append_of_refusal? h
    obtain ⟨each, same⟩ := output_content inner
    rw [parts, output_structHeader fits, same, output_items each]
    rfl

theorem output_items {options : Options} {depth : Nat} {vs : List Value}
    (h : refusal? (items options depth vs #[]).toList = none) :
    output (items options depth vs #[]).toList = Value.referenceItems options vs := by
  cases vs with
  | nil => rfl
  | cons v vs =>
    rw [steps_items_cons] at h ⊢
    obtain ⟨first, others, parts⟩ := output_append_of_refusal? h
    rw [parts, output_value first, output_items others]
    rfl

theorem output_entries {options : Options} {depth : Nat} {es : List (String × Value)}
    (h : refusal? (entries options depth es #[]).toList = none) :
    output (entries options depth es #[]).toList = Value.referenceEntries options es := by
  match es with
  | [] => rfl
  | (k, v) :: es =>
    rw [steps_entries_cons] at h ⊢
    obtain ⟨entry, others, parts⟩ := output_append_of_refusal? h
    obtain ⟨key, content, parts'⟩ := output_append_of_refusal? entry
    rw [parts, parts', output_string key, output_value content, output_entries others]
    rfl

end

end Script

/-! ## Encoding to byte strings -/

/-- A value is encoded to a byte string if none of its nodes offends, and then to its reference
encoding. -/
theorem Value.toBytes_eq_reference (options : Options) (v : Value) :
    v.toBytes options = match (v.sizedNodes 0).findSome? (SizedNode.offence options) with
      | none => .ok (v.reference options)
      | some error => .error error := by
  rw [toBytes_eq, ← Script.refusal?_value, steps]
  cases refused : Script.refusal? (Script.value options 0 v #[]).toList with
  | none => exact congrArg _ (Script.output_value refused)
  | some error => rfl

theorem Value.toBytes_eq_ok_iff {options : Options} {v : Value} {bs : Bytes} :
    v.toBytes options = .ok bs ↔
      (∀ node ∈ v.sizedNodes 0, node.offence options = none) ∧ v.reference options = bs := by
  rw [toBytes_eq_reference, ← List.findSome?_eq_none_iff]
  cases (v.sizedNodes 0).findSome? (SizedNode.offence options) with
  | none => simp
  | some error => simp

end PackStream
