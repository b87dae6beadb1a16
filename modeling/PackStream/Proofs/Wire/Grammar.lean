import PackStream.Proofs.Wire.Integer
import PackStream.Proofs.Value.Entries

/-!
# The grammar of the format

`Wire v w` says that the bytes `w` are a form of the value `v`. A value has many forms: integers
and sizes may be written wider than they need to be, and the entries of a dictionary in any order.

Main statement: `wire_cons_iff`, the forms of values sorted by their first byte, as a reader meets
them.
-/

set_option autoImplicit false

namespace PackStream

mutual

/-- The forms of a value. The bytes of a text are valid UTF-8 by the type of texts. The entries of
a dictionary value are those on the wire, listed in order of their keys. -/
inductive Wire : Value → Bytes → Prop
  | null : Wire .null [0xC0]
  | boolean (b : Bool) : Wire (.boolean b) [if b then 0xC3 else 0xC2]
  | float (x : Binary64) : Wire (.float x) (0xC1 :: Bytes.bigEndian 8 x.bits.toNat)
  | integer {i : Int64} {w : Bytes} (form : IntegerForm i w) : Wire (.integer i) w
  | string {s : String} {h : Bytes} (header : SizeHeader .string s.utf8ByteSize h) :
      Wire (.string s) (h ++ Utf8.encode s)
  | list {items : List Value} {h w : Bytes} (header : SizeHeader .list items.length h)
      (each : WireItems items w) : Wire (.list items) (h ++ w)
  | dict {pairs entries : List (String × Value)} {h w : Bytes}
      (header : SizeHeader .dict pairs.length h) (each : WireEntries pairs w)
      (distinct : (pairs.map Prod.fst).Nodup) (same : pairs.Perm entries)
      (sorted : Sorted entries) : Wire (.dict entries) (h ++ w)
  | struct {signature : UInt8} {fields : List Value} {h w : Bytes}
      (header : SizeHeader .struct fields.length h) (each : WireItems fields w) :
      Wire (.struct signature fields) (h ++ signature :: w)

/-- Forms of values one after the other. -/
inductive WireItems : List Value → Bytes → Prop
  | nil : WireItems [] []
  | cons {v : Value} {vs : List Value} {w ws : Bytes} (first : Wire v w)
      (others : WireItems vs ws) : WireItems (v :: vs) (w ++ ws)

/-- Forms of entries one after the other, each a form of its key before one of its value. -/
inductive WireEntries : List (String × Value) → Bytes → Prop
  | nil : WireEntries [] []
  | cons {k : String} {v : Value} {es : List (String × Value)} {wk wv ws : Bytes}
      (key : Wire (.string k) wk) (content : Wire v wv) (others : WireEntries es ws) :
      WireEntries ((k, v) :: es) (wk ++ wv ++ ws)

end

theorem WireItems.replicate {v : Value} {w : Bytes} (h : Wire v w) (n : Nat) :
    WireItems (List.replicate n v) (List.replicate n w).flatten := by
  induction n with
  | zero => exact .nil
  | succ n ih => exact .cons h ih

/-! ## Forms by their first byte -/

/-- What may follow a byte that announces a marker, for each value that it may be part of. -/
def Marker.Follows : Marker → Value → Bytes → Prop
  | .null, v, w => v = .null ∧ w = []
  | .boolean b, v, w => v = .boolean b ∧ w = []
  | .float, v, w => ∃ x, v = .float x ∧ w = Bytes.bigEndian 8 x.bits.toNat
  | .tinyInt i, v, w => v = .integer i.toInt64 ∧ w = []
  | .int width, v, w => ∃ i, v = .integer i ∧ width.Holds i.toInt ∧
      w = twosComplement width.payloadWidth i.toInt
  | .string width, v, w => ∃ s, v = .string s ∧ width.Holds s.utf8ByteSize ∧
      w = Bytes.bigEndian width.prefixWidth s.utf8ByteSize ++ Utf8.encode s
  | .list width, v, w => ∃ items u, v = .list items ∧ width.Holds items.length ∧
      WireItems items u ∧ w = Bytes.bigEndian width.prefixWidth items.length ++ u
  | .dict width, v, w => ∃ pairs entries u, v = .dict entries ∧ width.Holds pairs.length ∧
      WireEntries pairs u ∧ (pairs.map Prod.fst).Nodup ∧ pairs.Perm entries ∧
      Sorted entries ∧
      w = Bytes.bigEndian width.prefixWidth pairs.length ++ u
  | .struct width, v, w => ∃ signature fields u, v = .struct signature fields ∧
      width.Holds fields.length ∧ WireItems fields u ∧
      w = Bytes.bigEndian width.prefixWidth fields.length ++ signature :: u
  | .reserved, _, _ => False

theorem IntegerForm.follows {i : Int64} {u : Bytes} (form : IntegerForm i u) :
    ∃ b w, u = b :: w ∧ (Marker.ofByte b).Follows (.integer i) w := by
  cases form with
  | @tiny b h =>
    refine ⟨b, [], rfl, ?_⟩
    rw [ofByte_eq_tinyInt_iff.2 ⟨h, rfl⟩]
    exact ⟨rfl, rfl⟩
  | int8 h => exact ⟨0xC8, _, rfl, i, rfl, h, rfl⟩
  | int16 h => exact ⟨0xC9, _, rfl, i, rfl, h, rfl⟩
  | int32 h => exact ⟨0xCA, _, rfl, i, rfl, h, rfl⟩
  | int64 => exact ⟨0xCB, _, rfl, i, rfl, ⟨i.le_toInt, i.toInt_lt⟩, rfl⟩

theorem Wire.follows {v : Value} {u : Bytes} (h : Wire v u) :
    ∃ b w, u = b :: w ∧ (Marker.ofByte b).Follows v w := by
  cases h with
  | null => exact ⟨0xC0, [], rfl, rfl, rfl⟩
  | boolean b =>
    refine ⟨_, [], rfl, ?_⟩
    cases b <;> exact ⟨rfl, rfl⟩
  | float x => exact ⟨0xC1, _, rfl, x, rfl, rfl⟩
  | integer form => exact form.follows
  | @string s h header =>
    obtain ⟨width, b, holds, announced, rfl⟩ := sizeHeader_iff_ofByte (c := .string).1 header
    refine ⟨b, _, rfl, ?_⟩
    rw [announced]
    exact ⟨s, rfl, holds, rfl⟩
  | @list items h w header each =>
    obtain ⟨width, b, holds, announced, rfl⟩ := sizeHeader_iff_ofByte (c := .list).1 header
    refine ⟨b, _, rfl, ?_⟩
    rw [announced]
    exact ⟨items, w, rfl, holds, each, rfl⟩
  | @dict pairs entries h w header each distinct same sorted =>
    obtain ⟨width, b, holds, announced, rfl⟩ := sizeHeader_iff_ofByte (c := .dict).1 header
    refine ⟨b, _, rfl, ?_⟩
    rw [announced]
    exact ⟨pairs, entries, w, rfl, holds, each, distinct, same, sorted, rfl⟩
  | @struct signature fields h w header each =>
    obtain ⟨width, b, holds, announced, rfl⟩ := sizeHeader_iff_ofByte (c := .struct).1 header
    refine ⟨b, _, rfl, ?_⟩
    rw [announced]
    exact ⟨signature, fields, w, rfl, holds, each, rfl⟩

theorem wire_of_follows {b : UInt8} {v : Value} {w : Bytes}
    (h : (Marker.ofByte b).Follows v w) : Wire v (b :: w) := by
  cases announced : Marker.ofByte b with
  | null =>
    rw [announced] at h
    obtain ⟨rfl, rfl⟩ := h
    have byte := (Marker.ofByte_eq_iff (by simp)).1 announced
    cases byte
    exact .null
  | boolean x =>
    rw [announced] at h
    obtain ⟨rfl, rfl⟩ := h
    have byte := (Marker.ofByte_eq_iff (by simp)).1 announced
    cases byte
    exact .boolean x
  | float =>
    rw [announced] at h
    obtain ⟨x, rfl, rfl⟩ := h
    have byte := (Marker.ofByte_eq_iff (by simp)).1 announced
    cases byte
    exact .float x
  | tinyInt i =>
    rw [announced] at h
    obtain ⟨rfl, rfl⟩ := h
    obtain ⟨range, rfl⟩ := ofByte_eq_tinyInt_iff.1 announced
    exact .integer (.tiny range)
  | int width =>
    rw [announced] at h
    obtain ⟨i, rfl, holds, rfl⟩ := h
    have byte := (Marker.ofByte_eq_iff (by simp)).1 announced
    refine .integer (integerForm_iff.2 ⟨width, holds, ?_⟩)
    rw [IntWidth.bytes, show width.marker? = some b from byte]
  | string width =>
    rw [announced] at h
    obtain ⟨s, rfl, holds, rfl⟩ := h
    exact .string (sizeHeader_iff_ofByte (c := .string).2 ⟨width, b, holds, announced, rfl⟩)
  | list width =>
    rw [announced] at h
    obtain ⟨items, u, rfl, holds, each, rfl⟩ := h
    exact .list (sizeHeader_iff_ofByte (c := .list).2 ⟨width, b, holds, announced, rfl⟩) each
  | dict width =>
    rw [announced] at h
    obtain ⟨pairs, entries, u, rfl, holds, each, distinct, same, sorted, rfl⟩ := h
    exact .dict (sizeHeader_iff_ofByte (c := .dict).2 ⟨width, b, holds, announced, rfl⟩) each
      distinct same sorted
  | struct width =>
    rw [announced] at h
    obtain ⟨signature, fields, u, rfl, holds, each, rfl⟩ := h
    exact .struct (sizeHeader_iff_ofByte (c := .struct).2 ⟨width, b, holds, announced, rfl⟩) each
  | reserved =>
    rw [announced] at h
    exact h.elim

/-- The forms that begin with a byte are those of what the byte announces. -/
theorem wire_cons_iff {b : UInt8} {v : Value} {w : Bytes} :
    Wire v (b :: w) ↔ (Marker.ofByte b).Follows v w := by
  refine ⟨?_, ?_⟩
  · intro h
    obtain ⟨b', w', heq, follows⟩ := h.follows
    cases heq
    exact follows
  · exact wire_of_follows

/-- No value has the empty byte string as a form. -/
theorem not_wire_nil {v : Value} : ¬ Wire v [] := by
  intro h
  obtain ⟨b, w, heq, -⟩ := h.follows
  cases heq

end PackStream
