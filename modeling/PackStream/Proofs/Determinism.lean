import PackStream.Proofs.RoundTrip
import PackStream.Proofs.Truncation

/-!
# Equal values and their encodings

Values that are equal as numbers can still differ, in the signs of zeros. They are encoded to byte
strings of one length or refused alike, but these byte strings are the same only if the signs are,
zero by zero. The order in which a dictionary was filled, on the other hand, makes no difference.

Main statement: `Value.toBytes_eq_iff_zeros_eq`.
-/

set_option autoImplicit false

namespace PackStream

/-- Numbers are equal if they are the same, or zeros of either sign. -/
theorem Binary64.eq_or_isZero_of_numericEq {x y : Binary64} (h : x.numericEq y = true) :
    x = y ∨ x.isZero = true ∧ y.isZero = true := by
  simp only [numericEq, Bool.and_eq_true, Bool.or_eq_true, beq_iff_eq] at h
  exact h.2

namespace Value

/-! ## Zeros -/

/-- The zeros in a value, with their signs, in the order in which they are written. -/
def zeros (v : Value) : List Binary64 :=
  v.floats.filter Binary64.isZero

/-- The zeros in values one after the other. -/
def zerosItems (vs : List Value) : List Binary64 :=
  (floatsItems vs).filter Binary64.isZero

/-- The zeros in entries one after the other. -/
def zerosEntries (es : List (String × Value)) : List Binary64 :=
  (floatsEntries es).filter Binary64.isZero

theorem zerosItems_cons (v : Value) (vs : List Value) :
    zerosItems (v :: vs) = v.zeros ++ zerosItems vs :=
  List.filter_append _ _

theorem zerosEntries_cons (k : String) (v : Value) (es : List (String × Value)) :
    zerosEntries ((k, v) :: es) = v.zeros ++ zerosEntries es :=
  List.filter_append _ _

/-! ## What equal values have in common -/

/-- Two things that are the same up to the signs of zeros. They announce the same sizes and have as
many zeros, and they are the same if their zeros are, or if their bytes are. -/
structure Twins {α : Type} (nodes : Nat → α → List SizedNode) (zeros : α → List Binary64)
    (bytes : α → Bytes) (x y : α) : Prop where
  nodes_eq (depth : Nat) : nodes depth x = nodes depth y
  length_zeros : (zeros x).length = (zeros y).length
  eq_of_zeros (same : zeros x = zeros y) : x = y
  eq_of_bytes (same : bytes x = bytes y) : x = y

section

variable {α β γ : Type} {nodes : Nat → α → List SizedNode} {zeros : α → List Binary64}
  {bytes : α → Bytes} {nodes' : Nat → β → List SizedNode} {zeros' : β → List Binary64}
  {bytes' : β → Bytes} {nodes'' : Nat → γ → List SizedNode} {zeros'' : γ → List Binary64}
  {bytes'' : γ → Bytes}

theorem Twins.refl (x : α) : Twins nodes zeros bytes x x :=
  ⟨fun _ => rfl, rfl, fun _ => rfl, fun _ => rfl⟩

/-- An aggregate is a twin if its content is, given the same header. -/
theorem Twins.aggregate {x y : α} (inner : Twins nodes zeros bytes x y) {f : α → β} {header : Bytes}
    (nodes_eq : ∀ depth, nodes' depth (f x) = nodes' depth (f y))
    (zeros_eq : ∀ z, zeros' (f z) = zeros z) (left : bytes' (f x) = header ++ bytes x)
    (right : bytes' (f y) = header ++ bytes y) : Twins nodes' zeros' bytes' (f x) (f y) := by
  constructor
  · exact nodes_eq
  · rw [zeros_eq, zeros_eq, inner.length_zeros]
  · intro same
    rw [zeros_eq, zeros_eq] at same
    rw [inner.eq_of_zeros same]
  · intro same
    rw [left, right, List.append_cancel_left_eq] at same
    rw [inner.eq_of_bytes same]

/-- Twins one after the other are twins, if where the first ends does not depend on the signs. -/
theorem Twins.cons {x y : α} {xs ys : β} (first : Twins nodes zeros bytes x y)
    (length_bytes : (bytes x).length = (bytes y).length)
    (others : Twins nodes' zeros' bytes' xs ys) (f : α → β → γ) (own : Nat → List SizedNode)
    (key : Bytes)
    (nodes_cons : ∀ depth z zs,
      nodes'' depth (f z zs) = own depth ++ nodes depth z ++ nodes' depth zs)
    (zeros_cons : ∀ z zs, zeros'' (f z zs) = zeros z ++ zeros' zs)
    (bytes_cons : ∀ z zs, bytes'' (f z zs) = key ++ bytes z ++ bytes' zs) :
    Twins nodes'' zeros'' bytes'' (f x xs) (f y ys) := by
  constructor
  · intro depth
    rw [nodes_cons, nodes_cons, first.nodes_eq, others.nodes_eq]
  · rw [zeros_cons, zeros_cons, List.length_append, List.length_append, first.length_zeros,
      others.length_zeros]
  · intro same
    rw [zeros_cons, zeros_cons] at same
    obtain ⟨here, later⟩ := List.append_inj same first.length_zeros
    rw [first.eq_of_zeros here, others.eq_of_zeros later]
  · intro same
    rw [bytes_cons, bytes_cons, List.append_assoc, List.append_assoc,
      List.append_cancel_left_eq] at same
    obtain ⟨here, later⟩ := List.append_inj same length_bytes
    rw [first.eq_of_bytes here, others.eq_of_bytes later]

end

theorem length_eq_of_numericEqItems {as bs : List Value} (equal : numericEqItems as bs = true) :
    as.length = bs.length :=
  (@length_referenceItems_of_numericEq .standard as bs equal).1

theorem length_eq_of_numericEqEntries {as bs : List (String × Value)}
    (equal : numericEqEntries as bs = true) : as.length = bs.length :=
  (@length_referenceEntries_of_numericEq .standard as bs equal).1

/-- Equal numbers are twins: if they are not the same, they are zeros. -/
theorem twins_float {options : Options} {x y : Binary64} (equal : x.numericEq y = true) :
    Twins sizedNodes zeros (reference options) (.float x) (.float y) := by
  obtain rfl | ⟨zero, zero'⟩ := Binary64.eq_or_isZero_of_numericEq equal
  · exact .refl _
  · have kept : (Value.float x).zeros = [x] := List.filter_cons_of_pos zero
    have kept' : (Value.float y).zeros = [y] := List.filter_cons_of_pos zero'
    constructor
    · intro depth
      rfl
    · rw [kept, kept']
      rfl
    · intro same
      rw [kept, kept'] at same
      cases same
      rfl
    · intro same
      have small (bits : UInt64) : bits.toNat < Bytes.modulus 8 := bits.toNat_lt
      have read := congrArg Bytes.ofBigEndian (List.cons.inj same).2
      rw [Bytes.ofBigEndian_bigEndian, Bytes.ofBigEndian_bigEndian, Nat.mod_eq_of_lt (small x.bits),
        Nat.mod_eq_of_lt (small y.bits)] at read
      exact congrArg (fun bits => float ⟨bits⟩) (UInt64.toNat_inj.1 read)

variable {options : Options}

mutual

/-- Values that are equal as numbers are the same up to the signs of zeros. -/
theorem twins_of_numericEq {a b : Value} (equal : a.numericEq b = true) :
    Twins sizedNodes zeros (reference options) a b := by
  cases a with
  | null =>
    cases b with
    | null => exact .refl _
    | _ => cases equal
  | boolean =>
    cases b with
    | boolean =>
      rw [eq_of_beq equal]
      exact .refl _
    | _ => cases equal
  | integer =>
    cases b with
    | integer =>
      rw [eq_of_beq equal]
      exact .refl _
    | _ => cases equal
  | float =>
    cases b with
    | float => exact twins_float equal
    | _ => cases equal
  | string =>
    cases b with
    | string =>
      rw [eq_of_beq equal]
      exact .refl _
    | _ => cases equal
  | list as =>
    cases b with
    | list bs =>
      rw [numericEq] at equal
      have inner : Twins _ _ (referenceItems options) as bs := twins_of_numericEqItems equal
      have sizes := length_eq_of_numericEqItems equal
      apply inner.aggregate
      · intro depth
        rw [sizedNodes, sizedNodes, sizes, inner.nodes_eq]
      · intro vs
        rfl
      · rw [reference, sizes]
      · rw [reference]
    | _ => cases equal
  | dict as =>
    cases b with
    | dict bs =>
      rw [numericEq] at equal
      have inner : Twins _ _ (referenceEntries options) as bs := twins_of_numericEqEntries equal
      have sizes := length_eq_of_numericEqEntries equal
      apply inner.aggregate
      · intro depth
        rw [sizedNodes, sizedNodes, sizes, inner.nodes_eq]
      · intro es
        rfl
      · rw [reference, sizes]
      · rw [reference]
    | _ => cases equal
  | struct s as =>
    cases b with
    | struct t bs =>
      rw [numericEq, Bool.and_eq_true, beq_iff_eq] at equal
      obtain ⟨rfl, equal⟩ := equal
      have inner : Twins _ _ (referenceItems options) as bs := twins_of_numericEqItems equal
      have sizes := length_eq_of_numericEqItems equal
      apply inner.aggregate
      · intro depth
        rw [sizedNodes, sizedNodes, sizes, inner.nodes_eq]
      · intro vs
        rfl
      · rw [reference, sizes]
      · rw [reference]
    | _ => cases equal

theorem twins_of_numericEqItems {as bs : List Value} (equal : numericEqItems as bs = true) :
    Twins sizedNodesItems zerosItems (referenceItems options) as bs := by
  match as, bs with
  | [], [] => exact .refl _
  | a :: as, b :: bs =>
    rw [numericEqItems, Bool.and_eq_true] at equal
    have first : Twins _ _ (reference options) a b := twins_of_numericEq equal.1
    have others : Twins _ _ (referenceItems options) as bs := twins_of_numericEqItems equal.2
    apply first.cons (length_reference_of_numericEq equal.1) others List.cons (fun _ => []) []
    · intro depth v vs
      rfl
    · exact zerosItems_cons
    · intro v vs
      rfl

theorem twins_of_numericEqEntries {as bs : List (String × Value)}
    (equal : numericEqEntries as bs = true) :
    Twins sizedNodesEntries zerosEntries (referenceEntries options) as bs := by
  match as, bs with
  | [], [] => exact .refl _
  | (j, a) :: as, (k, b) :: bs =>
    simp only [numericEqEntries, Bool.and_eq_true, beq_iff_eq] at equal
    obtain ⟨⟨rfl, content⟩, rest⟩ := equal
    have first : Twins _ _ (reference options) a b := twins_of_numericEq content
    have others : Twins _ _ (referenceEntries options) as bs := twins_of_numericEqEntries rest
    apply first.cons (length_reference_of_numericEq content) others (fun v es => (j, v) :: es)
      (fun depth => [⟨.string, j.utf8ByteSize, depth⟩]) (Reference.string options j)
    · intro depth v vs
      rfl
    · exact zerosEntries_cons j
    · intro v vs
      rfl

end

end Value

/-! ## Encodings -/

/-- Dictionaries with the same entries list them alike, however they were filled. -/
theorem Dict.toList_eq_of_getElem? {d d' : Dict} (same : ∀ k : String, d[k]? = d'[k]?) :
    d.toList = d'.toList := by
  have increasing : Sorted d.toList := d.toList_increasing
  have increasing' : Sorted d'.toList := d'.toList_increasing
  have perm : d.toList.Perm d'.toList := by
    apply (List.perm_ext_iff_of_nodup increasing.nodup increasing'.nodup).2
    rintro ⟨k, v⟩
    rw [Std.TreeMap.mem_toList_iff_getElem?_eq_some, Std.TreeMap.mem_toList_iff_getElem?_eq_some,
      same k]
  exact Sorted.eq_of_perm increasing increasing' perm

namespace Value

/-- Values that are equal as numbers are refused alike, or encoded to byte strings of one length.
These are the same if and only if the zeros in the values are, with their signs. Dictionaries with
the same entries are encoded alike, however they were filled. -/
theorem toBytes_eq_iff_zeros_eq (options : Options) :
    (∀ a b : Value, a.numericEq b = true →
      (a.toBytes options).map List.length = (b.toBytes options).map List.length ∧
        ∀ bs, a.toBytes options = .ok bs → (b.toBytes options = .ok bs ↔ a.zeros = b.zeros)) ∧
      ∀ d d' : Dict, (∀ k : String, d[k]? = d'[k]?) →
        (ofDict d).toBytes options = (ofDict d').toBytes options := by
  constructor
  · intro a b equal
    have twins : Twins sizedNodes zeros (reference options) a b := twins_of_numericEq equal
    constructor
    · rw [toBytes_eq_reference, toBytes_eq_reference, twins.nodes_eq 0]
      cases (b.sizedNodes 0).findSome? (SizedNode.offence options) with
      | none => exact congrArg Except.ok (length_reference_of_numericEq equal)
      | some error => rfl
    · intro bs encoded
      obtain ⟨harmless, rfl⟩ := toBytes_eq_ok_iff.1 encoded
      constructor
      · intro encoded'
        have same := (toBytes_eq_ok_iff.1 encoded').2
        rw [twins.eq_of_bytes same.symm]
      · intro same
        rw [← twins.eq_of_zeros same]
        exact encoded
  · intro d d' same
    rw [ofDict, ofDict, Dict.toList_eq_of_getElem? same]

/-- A dictionary with a zero of either sign. -/
def zeroEntry (negative : Bool) : Value :=
  .dict [("x", .float (.ofFields negative 0 0))]

/-- The sign of a zero makes a difference, and the order of insertions does not. -/
theorem toBytes_eq_iff_zeros_eq_zeroEntry :
    let d : Dict := (Std.TreeMap.empty.insert "a" .null).insert "b" (.boolean true)
    let d' : Dict := (Std.TreeMap.empty.insert "b" (.boolean true)).insert "a" .null
    (zeroEntry true).numericEq (zeroEntry false) = true ∧
      (∃ bs, (zeroEntry true).toBytes .legacy = .ok bs ∧
        (zeroEntry false).toBytes .legacy ≠ .ok bs) ∧
      (∀ k : String, d[k]? = d'[k]?) ∧
      (ofDict d).toBytes .legacy = (ofDict d').toBytes .legacy := by
  intro d d'
  have equal : (zeroEntry true).numericEq (zeroEntry false) = true := by decide
  have different : (zeroEntry true).zeros ≠ (zeroEntry false).zeros := by decide
  have encoded : (zeroEntry true).toBytes .legacy =
      .ok [0xA1, 0x81, 0x78, 0xC1, 0x80, 0, 0, 0, 0, 0, 0, 0] :=
    (toBytes_eq_reference _ _).trans rfl
  have same (k : String) : d[k]? = d'[k]? := by
    simp only [d, d', Std.TreeMap.getElem?_insert, Std.LawfulEqCmp.compare_eq_iff_eq]
    by_cases a : "a" = k
    · subst a
      rfl
    · simp only [a, if_false]
  obtain ⟨values, dicts⟩ := toBytes_eq_iff_zeros_eq .legacy
  refine ⟨equal, ⟨_, encoded, ?_⟩, same, dicts d d' same⟩
  exact mt ((values _ _ equal).2 _ encoded).1 different

/-- So equal dictionaries do not always have the same encoding. -/
theorem not_forall_toBytes_eq_of_numericEq :
    ¬ ∀ (a b : Value) (bs cs : Bytes), a.Ordered → b.Ordered → a.numericEq b = true →
        a.toBytes .standard = .ok bs → b.toBytes .standard = .ok cs → bs = cs := by
  intro all
  have ordered (negative : Bool) : (zeroEntry negative).Ordered := by
    refine .dict (List.pairwise_singleton _ _) ?_
    simp [Value.Ordered.float]
  have encoded : (zeroEntry false).toBytes .standard =
      .ok [0xA1, 0x81, 0x78, 0xC1, 0, 0, 0, 0, 0, 0, 0, 0] :=
    (toBytes_eq_reference _ _).trans rfl
  have encoded' : (zeroEntry true).toBytes .standard =
      .ok [0xA1, 0x81, 0x78, 0xC1, 0x80, 0, 0, 0, 0, 0, 0, 0] :=
    (toBytes_eq_reference _ _).trans rfl
  have same := all _ _ _ _ (ordered false) (ordered true) (by decide) encoded encoded'
  cases same

end Value

end PackStream
