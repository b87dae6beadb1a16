import PackStream.Proofs.Decoding.Acceptance
import PackStream.Proofs.Encoding.Shortest
import PackStream.Value.Equality

/-!
# Truncated lengths

Writing lengths as their low byte saves a byte in every 16-bit header and three in every 32-bit
header, and nothing else. No form of a value is shorter than its standard encoding, so an encoding
that is shorter is no form of the value, whatever a reader makes of it.

Main statements: `length_reference_lowByte` and `ofBytes_lowByte_ne`.
-/

set_option autoImplicit false

namespace PackStream

/-! ## Lost bytes -/

/-- How many bytes of the node's size are not written when only the low byte is. -/
def SizedNode.lost (node : SizedNode) : Nat :=
  if node.size ≤ 255 then 0 else if node.size ≤ 65535 then 1 else 3

/-- How many bytes of the sizes of nodes are not written when only low bytes are. -/
def SizedNode.totalLost : List SizedNode → Nat
  | [] => 0
  | node :: nodes => node.lost + totalLost nodes

namespace SizedNode

theorem totalLost_append (xs ys : List SizedNode) :
    totalLost (xs ++ ys) = totalLost xs + totalLost ys := by
  induction xs with
  | nil => exact (Nat.zero_add _).symm
  | cons node xs ih => rw [List.cons_append, totalLost, totalLost, ih, Nat.add_assoc]

theorem lost_pos {node : SizedNode} (large : 255 < node.size) : 0 < node.lost := by
  unfold lost
  rw [if_neg (Nat.not_le.2 large)]
  split
  · exact Nat.one_pos
  · exact Nat.zero_lt_succ 2

theorem totalLost_pos {nodes : List SizedNode} {node : SizedNode} (mem : node ∈ nodes)
    (large : 255 < node.size) : 0 < totalLost nodes := by
  obtain ⟨before, later, rfl⟩ := List.append_of_mem mem
  have pos := lost_pos large
  rw [totalLost_append, totalLost]
  omega

end SizedNode

namespace Reference

theorem length_header_lowByte (c : Category) (n depth : Nat) :
    (header .lowByte c.family n).length + SizedNode.lost ⟨c, n, depth⟩ =
      (header .full c.family n).length := by
  unfold header SizedNode.lost
  by_cases tiny : n ≤ 15
  · have byte : n ≤ 255 := by omega
    rw [if_pos tiny, if_pos tiny, if_pos byte, Nat.add_zero]
  by_cases byte : n ≤ 255
  · rw [if_neg tiny, if_neg tiny, if_pos byte, if_pos byte, if_pos byte, Nat.add_zero]
  by_cases word : n ≤ 65535
  · rw [if_neg tiny, if_neg tiny, if_neg byte, if_neg byte, if_neg byte, if_pos word, if_pos word,
      if_pos word]
    simp only [lengthField, List.length_cons, List.length_nil, Bytes.length_bigEndian]
  · rw [if_neg tiny, if_neg tiny, if_neg byte, if_neg byte, if_neg byte, if_neg word, if_neg word,
      if_neg word]
    simp only [lengthField, List.length_append, List.length_cons, List.length_nil,
      Bytes.length_bigEndian]

theorem length_structHeader (options : Options) (signature : UInt8) (n : Nat) :
    (structHeader options signature n).length = (header options.lengths .struct n).length + 1 := by
  unfold structHeader
  cases options.signature with
  | afterHeader => exact List.length_append
  | beforeHeader => exact List.length_cons

end Reference

namespace Value

variable {options options' : Options}

theorem length_string_lowByte (short : options.lengths = .lowByte)
    (full : options'.lengths = .full) (depth : Nat) (s : String) :
    (Reference.string options s).length + SizedNode.lost ⟨.string, s.utf8ByteSize, depth⟩ =
      (Reference.string options' s).length := by
  have header := Reference.length_header_lowByte .string s.utf8ByteSize depth
  simp only [Reference.string, short, full, List.length_append]
  simp only [Category.family] at header
  omega

mutual

/-- Under low-byte lengths a value loses the upper bytes of its sizes and nothing else, wherever
signatures stand. -/
theorem length_reference_lowByte (short : options.lengths = .lowByte)
    (full : options'.lengths = .full) (depth : Nat) (v : Value) :
    (v.reference options).length + SizedNode.totalLost (v.sizedNodes depth) =
      (v.reference options').length := by
  cases v with
  | null | boolean | integer | float => rfl
  | string s => exact length_string_lowByte short full depth s
  | list vs =>
    have header := Reference.length_header_lowByte .list vs.length depth
    have inner := length_referenceItems_lowByte short full (depth + 1) vs
    simp only [reference, sizedNodes, short, full, List.length_append, SizedNode.totalLost]
    simp only [Category.family] at header
    omega
  | dict es =>
    have header := Reference.length_header_lowByte .dict es.length depth
    have inner := length_referenceEntries_lowByte short full (depth + 1) es
    simp only [reference, sizedNodes, short, full, List.length_append, SizedNode.totalLost]
    simp only [Category.family] at header
    omega
  | struct signature vs =>
    have header := Reference.length_header_lowByte .struct vs.length depth
    have inner := length_referenceItems_lowByte short full (depth + 1) vs
    simp only [reference, sizedNodes, short, full, List.length_append,
      Reference.length_structHeader, SizedNode.totalLost]
    simp only [Category.family] at header
    omega

theorem length_referenceItems_lowByte (short : options.lengths = .lowByte)
    (full : options'.lengths = .full) (depth : Nat) (vs : List Value) :
    (referenceItems options vs).length + SizedNode.totalLost (sizedNodesItems depth vs) =
      (referenceItems options' vs).length := by
  cases vs with
  | nil => rfl
  | cons v vs =>
    have first := length_reference_lowByte short full depth v
    have others := length_referenceItems_lowByte short full depth vs
    simp only [referenceItems, sizedNodesItems, List.length_append, SizedNode.totalLost_append]
    omega

theorem length_referenceEntries_lowByte (short : options.lengths = .lowByte)
    (full : options'.lengths = .full) (depth : Nat) (es : List (String × Value)) :
    (referenceEntries options es).length + SizedNode.totalLost (sizedNodesEntries depth es) =
      (referenceEntries options' es).length := by
  match es with
  | [] => rfl
  | (k, v) :: es =>
    have key := length_string_lowByte short full depth k
    have content := length_reference_lowByte short full depth v
    have others := length_referenceEntries_lowByte short full depth es
    simp only [referenceEntries, sizedNodesEntries, List.length_append,
      SizedNode.totalLost, SizedNode.totalLost_append]
    omega

end

/-! ## Equal values have encodings of one length -/

mutual

/-- The encodings of values that are equal as numbers may differ, but not in length. -/
theorem length_reference_of_numericEq {u v : Value} (h : u.numericEq v = true) :
    (u.reference options).length = (v.reference options).length := by
  cases u with
  | null =>
    cases v with
    | null => rfl
    | _ => cases h
  | boolean =>
    cases v with
    | boolean => rfl
    | _ => cases h
  | integer =>
    cases v with
    | integer => rw [eq_of_beq h]
    | _ => cases h
  | float =>
    cases v with
    | float => simp only [reference, List.length_cons, Bytes.length_bigEndian]
    | _ => cases h
  | string =>
    cases v with
    | string => rw [eq_of_beq h]
    | _ => cases h
  | list as =>
    cases v with
    | list bs =>
      rw [numericEq] at h
      obtain ⟨sizes, inner⟩ := length_referenceItems_of_numericEq h
      simp only [reference, List.length_append, sizes, inner]
    | _ => cases h
  | dict as =>
    cases v with
    | dict bs =>
      rw [numericEq] at h
      obtain ⟨sizes, inner⟩ := length_referenceEntries_of_numericEq h
      simp only [reference, List.length_append, sizes, inner]
    | _ => cases h
  | struct s as =>
    cases v with
    | struct t bs =>
      rw [numericEq, Bool.and_eq_true] at h
      obtain ⟨sizes, inner⟩ := length_referenceItems_of_numericEq h.2
      simp only [reference, List.length_append, Reference.length_structHeader, sizes, inner]
    | _ => cases h

theorem length_referenceItems_of_numericEq {as bs : List Value}
    (h : numericEqItems as bs = true) :
    as.length = bs.length ∧
      (referenceItems options as).length = (referenceItems options bs).length := by
  match as, bs with
  | [], [] => exact ⟨rfl, rfl⟩
  | a :: as, b :: bs =>
    rw [numericEqItems, Bool.and_eq_true] at h
    have first := length_reference_of_numericEq h.1
    obtain ⟨sizes, others⟩ := length_referenceItems_of_numericEq h.2
    simp only [referenceItems, List.length_cons, List.length_append, sizes, first, others,
      and_self]

theorem length_referenceEntries_of_numericEq {as bs : List (String × Value)}
    (h : numericEqEntries as bs = true) :
    as.length = bs.length ∧
      (referenceEntries options as).length = (referenceEntries options bs).length := by
  match as, bs with
  | [], [] => exact ⟨rfl, rfl⟩
  | (j, a) :: as, (k, b) :: bs =>
    simp only [numericEqEntries, Bool.and_eq_true, beq_iff_eq] at h
    obtain ⟨⟨rfl, content⟩, rest⟩ := h
    have first := length_reference_of_numericEq content
    obtain ⟨sizes, others⟩ := length_referenceEntries_of_numericEq rest
    simp only [referenceEntries, List.length_cons, List.length_append, sizes, first, others,
      and_self]

end

/-! ## Reading truncated lengths -/

/-- What is read from an encoding that lost bytes has a shorter standard encoding. -/
theorem length_reference_lt_of_ofBytes {v w : Value} {bs : Bytes}
    (short : options.lengths = .lowByte) (encoded : v.toBytes options = .ok bs)
    (large : ∃ node ∈ v.sizedNodes 0, 255 < node.size) (read : ofBytes bs = .ok w) :
    (w.reference .standard).length < (v.reference .standard).length := by
  obtain ⟨node, mem, large⟩ := large
  have le := (Reader.ofBytes_eq_ok_iff.1 read).length_reference_le
  have full : Options.standard.lengths = .full := rfl
  have lost := length_reference_lowByte short full 0 v
  have pos := SizedNode.totalLost_pos mem large
  obtain ⟨-, rfl⟩ := toBytes_eq_ok_iff.1 encoded
  omega

/-- An encoding under low-byte lengths of a value with a size above 255 is not read as that value,
nor as one that is equal to it as a number. -/
theorem ofBytes_lowByte_ne {v : Value} {bs : Bytes} (short : options.lengths = .lowByte)
    (encoded : v.toBytes options = .ok bs) (large : ∃ node ∈ v.sizedNodes 0, 255 < node.size) :
    ∀ w, ofBytes bs = .ok w → w ≠ v ∧ w.numericEq v = false := by
  intro w read
  have lt := length_reference_lt_of_ofBytes short encoded large read
  constructor
  · rintro rfl
    exact Nat.lt_irrefl _ lt
  · refine Bool.eq_false_iff.2 fun equal => ?_
    exact Nat.ne_of_lt lt (length_reference_of_numericEq equal)

/-- The lost byte of 256 items makes the first item the low byte of the size. -/
theorem ofBytes_lowByte_ne_longList :
    let v : Value := .list (.integer (-1) :: List.replicate 255 .null)
    let w : Value := .list (List.replicate 255 .null)
    let bs := [0xD5, 0x00, 0xFF] ++ List.replicate 255 0xC0
    v.toBytes .legacy = .ok bs ∧ ofBytes bs = .ok w ∧ w ≠ v ∧ w.numericEq v = false := by
  intro v w bs
  have nodes : v.sizedNodes 0 = [⟨.list, 256, 0⟩] := by
    simp [v, sizedNodes, sizedNodesItems, sizedNodesItems_eq_flatMap, -List.reduceReplicate]
  have reference : v.reference .legacy = bs := by
    have header : Reference.header .lowByte .list (255 + 1) = [0xD5, 0x00] := by decide
    have first : (Value.integer (-1)).reference .legacy = [0xFF] := by decide
    have others : Value.null.reference .legacy = [0xC0] := by decide
    rw [Value.reference, referenceItems, referenceItems_eq_flatMap, List.flatMap_replicate,
      List.length_cons, List.length_replicate, first, others, List.flatten_replicate_singleton]
    exact congrArg (· ++ _) header
  have encoded : v.toBytes .legacy = .ok bs := by
    rw [toBytes_eq_reference, nodes, ← reference]
    rfl
  have read : ofBytes bs = .ok w := by
    have items := WireItems.replicate Wire.null 255
    rw [List.flatten_replicate_singleton] at items
    have header : SizeHeader .list (List.replicate 255 Value.null).length [0xD5, 0x00, 0xFF] := by
      rw [List.length_replicate]
      exact .size16 (by decide)
    exact Reader.ofBytes_eq_ok_iff.2 (.list header items)
  have large : ∃ node ∈ v.sizedNodes 0, 255 < node.size := by
    rw [nodes]
    exact ⟨_, List.mem_singleton.2 rfl, by decide⟩
  exact ⟨encoded, read, ofBytes_lowByte_ne rfl encoded large w read⟩

end Value

end PackStream
