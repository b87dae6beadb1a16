import PackStream.Decoding.Bytes
import PackStream.Proofs.Decoding.Language
import PackStream.Proofs.Wire.Grammar

/-!
# The reader accepts exactly the grammar

Each part of the reader accepts the part of the grammar that it is for. Main statements:
`accepts_nested`, a value is read exactly if the input begins with one of its forms, and
`wholeValue_eq_ok_iff`, the same for input that holds one value and nothing else.
-/

set_option autoImplicit false

namespace PackStream.Reader

variable {bound : Nat}

/-! ## Fields of fixed width -/

/-- A field of fixed width may hold any bytes. -/
theorem accepts_field {α : Type} (k : Nat) (f : Bytes → α) :
    Accepts bound (do need k; return f (← take k)) fun a w => w.length = k ∧ a = f w := by
  have field : Accepts bound (do return f (← take k)) fun a w => w.length = k ∧ a = f w := by
    refine (accepts_take k).map.congr fun a w => ?_
    refine ⟨?_, ?_⟩
    · intro given
      rcases given with ⟨bs, ⟨rfl, hlen⟩, rfl⟩
      exact ⟨hlen, rfl⟩
    · intro given
      rcases given with ⟨hlen, rfl⟩
      exact ⟨w, ⟨rfl, hlen⟩, rfl⟩
  exact field.need fun a w h => Nat.le_of_eq h.1.symm

theorem accepts_word (k : Nat) :
    Accepts bound (do need k; return Bytes.ofBigEndian (← take k)) fun n w =>
      n < Bytes.modulus k ∧ w = Bytes.bigEndian k n := by
  refine (accepts_field k Bytes.ofBigEndian).congr fun n w => ?_
  refine ⟨?_, ?_⟩
  · intro h
    rcases h with ⟨rfl, rfl⟩
    exact ⟨Bytes.ofBigEndian_lt w, (Bytes.bigEndian_ofBigEndian w).symm⟩
  · intro h
    rcases h with ⟨hn, rfl⟩
    exact ⟨Bytes.length_bigEndian k n,
      by rw [Bytes.ofBigEndian_bigEndian, Nat.mod_eq_of_lt hn]⟩

theorem accepts_size {width : SizeClass} (h : width.InMarker) :
    Accepts bound (size width) fun n w =>
      width.Holds n ∧ w = Bytes.bigEndian width.prefixWidth n := by
  cases width with
  | tiny m =>
    have read : Accepts bound (size (.tiny m)) fun n w => n = m.toNat ∧ w = [] :=
      (accepts_pure m.toNat).need fun _ _ _ => Nat.zero_le _
    refine read.congr fun n w => ?_
    have small : m.toNat ≤ 15 := UInt8.le_iff_toNat_le.1 h
    refine ⟨?_, ?_⟩
    · intro given
      rcases given with ⟨rfl, rfl⟩
      exact ⟨⟨small, by simp⟩, rfl⟩
    · intro given
      rcases given with ⟨⟨hn, rfl⟩, rfl⟩
      refine ⟨?_, rfl⟩
      rw [UInt8.toNat_ofNat', Nat.mod_eq_of_lt (by omega)]
  | size8 => exact accepts_word 1
  | size16 => exact accepts_word 2
  | size32 => exact accepts_word 4

theorem accepts_integer {width : IntWidth} (h : width ≠ .tiny) :
    Accepts bound (integer width) fun i w =>
      width.Holds i.toInt ∧ w = twosComplement width.payloadWidth i.toInt := by
  have field : Accepts bound (do need width.payloadWidth
                                 return ofTwosComplement (← take width.payloadWidth))
      fun i w => width.Holds i.toInt ∧ w = twosComplement width.payloadWidth i.toInt :=
    (accepts_field _ _).congr fun i w => eq_ofTwosComplement_iff h
  cases width with
  | tiny => exact absurd rfl h
  | int8 | int16 | int32 | int64 => exact field

theorem accepts_float :
    Accepts bound float fun x w => w = Bytes.bigEndian 8 x.bits.toNat := by
  refine (accepts_field 8 fun bs => (⟨UInt64.ofNat (Bytes.ofBigEndian bs)⟩ : Binary64)).congr
    fun x w => ?_
  refine ⟨?_, ?_⟩
  · intro h
    rcases h with ⟨hlen, rfl⟩
    have lt := Bytes.ofBigEndian_lt w
    rw [hlen] at lt
    have read := UInt64.toNat_ofNat_of_lt' lt
    show w = Bytes.bigEndian 8 (UInt64.ofNat (Bytes.ofBigEndian w)).toNat
    rw [read, ← hlen, Bytes.bigEndian_ofBigEndian]
  · rintro rfl
    refine ⟨Bytes.length_bigEndian _ _, ?_⟩
    obtain ⟨bits⟩ := x
    have lt : bits.toNat < Bytes.modulus 8 := bits.toNat_lt
    rw [Bytes.ofBigEndian_bigEndian, Nat.mod_eq_of_lt lt, UInt64.ofNat_toNat]

theorem accepts_text (n : Nat) :
    Accepts bound (text n) fun s w => s.utf8ByteSize = n ∧ w = Utf8.encode s := by
  have field : Accepts bound (text n) fun s w => ∃ bs p q, (bs = p ∧ p.length = n) ∧
      (bs = Utf8.encode s ∧ q = []) ∧ w = p ++ q := by
    unfold text
    refine Accepts.need (Accepts.bind (M := fun bs s q => bs = Utf8.encode s ∧ q = [])
      (accepts_take n) fun bs => ?_) fun s w h => ?_
    · cases read : Utf8.decode bs with
      | ok t =>
        refine (accepts_pure t).congr fun s w => and_congr_left fun _ => ?_
        rw [← Utf8.decode_eq_ok_iff, read, Except.ok.injEq, eq_comm]
      | error fault =>
        refine (accepts_throw _).congr fun s w => ?_
        rw [← Utf8.decode_eq_ok_iff, read]
        simp
    · obtain ⟨bs, p, q, ⟨rfl, hlen⟩, -, rfl⟩ := h
      rw [List.length_append]
      omega
  refine field.congr fun s w => ?_
  refine ⟨?_, ?_⟩
  · intro given
    rcases given with ⟨bs, p, q, ⟨rfl, hlen⟩, ⟨rfl, rfl⟩, rfl⟩
    rw [Utf8.length_encode] at hlen
    exact ⟨hlen, List.append_nil _⟩
  · intro given
    rcases given with ⟨hlen, rfl⟩
    refine ⟨_, _, [], ⟨rfl, ?_⟩, ⟨rfl, rfl⟩, (List.append_nil _).symm⟩
    rw [Utf8.length_encode, hlen]

theorem accepts_string {width : SizeClass} (inMarker : width.InMarker) :
    Accepts bound (do return Value.string (← text (← size width)))
      (Marker.string width).Follows := by
  refine ((accepts_size inMarker).bind fun n => (accepts_text n).map).congr fun v w => ?_
  refine ⟨fun h => ?_, fun h => ?_⟩
  · obtain ⟨n, p, q, ⟨holds, rfl⟩, ⟨s, ⟨rfl, rfl⟩, rfl⟩, rfl⟩ := h
    exact ⟨s, rfl, holds, rfl⟩
  · obtain ⟨s, rfl, holds, rfl⟩ := h
    exact ⟨_, _, _, ⟨holds, rfl⟩, ⟨s, ⟨rfl, rfl⟩, rfl⟩, rfl⟩

/-! ## Parts made of values -/

section

variable {read : Reader Value} (h : Accepts bound read Wire)

include h

theorem accepts_repeated (n : Nat) (done : List Value) :
    Accepts bound (repeated read n done) fun vs w =>
      ∃ items, vs = done.reverse ++ items ∧ items.length = n ∧ WireItems items w := by
  induction n generalizing done with
  | zero =>
    refine (accepts_pure done.reverse).congr fun vs w => ?_
    refine ⟨?_, ?_⟩
    · intro given
      rcases given with ⟨rfl, rfl⟩
      exact ⟨[], (List.append_nil _).symm, rfl, .nil⟩
    · intro given
      rcases given with ⟨items, rfl, hlen, each⟩
      cases List.length_eq_zero_iff.1 hlen
      cases each
      exact ⟨List.append_nil _, rfl⟩
  | succ n ih =>
    refine (h.bind fun v => ih (v :: done)).congr fun vs w => ?_
    refine ⟨?_, ?_⟩
    · intro given
      rcases given with ⟨v, p, q, first, ⟨items, rfl, rfl, others⟩, rfl⟩
      exact ⟨v :: items, by simp, rfl, .cons first others⟩
    · intro given
      rcases given with ⟨items, rfl, hlen, each⟩
      cases each with
      | nil => cases hlen
      | @cons v vs p q first others =>
        exact ⟨v, p, q, first, ⟨vs, by simp, Nat.succ.inj hlen, others⟩, rfl⟩

theorem accepts_items (n : Nat) :
    Accepts bound (repeated read n []) fun vs w => vs.length = n ∧ WireItems vs w := by
  refine (accepts_repeated h n []).congr fun vs w => ?_
  refine ⟨?_, ?_⟩
  · intro given
    rcases given with ⟨items, heq, hlen, each⟩
    have same : vs = items := heq
    exact same ▸ ⟨hlen, each⟩
  · intro given
    rcases given with ⟨hlen, each⟩
    exact ⟨vs, rfl, hlen, each⟩

theorem accepts_key (seen : Dict) :
    Accepts bound (key read seen) fun k w => Wire (.string k) w ∧ k ∉ seen := by
  unfold key
  refine (Accepts.bind (M := fun v k q => v = .string k ∧ k ∉ seen ∧ q = []) h
    fun v => ?_).congr fun k w => ?_
  · cases v with
    | string s =>
      by_cases hs : s ∈ seen
      · have refused : seen.contains s = true := hs
        simp only [refused, if_true]
        refine (accepts_throw _).congr fun k w => ⟨False.elim, fun h => ?_⟩
        obtain ⟨heq, hk, -⟩ := h
        cases heq
        exact hk hs
      · have passed : seen.contains s = false := Bool.eq_false_iff.2 hs
        simp only [passed, Bool.false_eq_true, if_false]
        refine (accepts_pure s).congr fun k w => ⟨fun h => ?_, fun h => ?_⟩
        · obtain ⟨rfl, rfl⟩ := h
          exact ⟨rfl, hs, rfl⟩
        · obtain ⟨heq, -, rfl⟩ := h
          cases heq
          exact ⟨rfl, rfl⟩
    | null | boolean | integer | float | list | dict | struct =>
      exact (accepts_throw _).congr (by simp)
  · refine ⟨fun parts => ?_, fun parts => ?_⟩
    · obtain ⟨v, p, q, form, ⟨rfl, hk, rfl⟩, rfl⟩ := parts
      exact ⟨by rwa [List.append_nil], hk⟩
    · obtain ⟨form, hk⟩ := parts
      exact ⟨_, w, [], form, ⟨rfl, hk, rfl⟩, (List.append_nil w).symm⟩

theorem accepts_entries (n : Nat) (dict : Dict) :
    Accepts bound (entries read n dict) fun d w =>
      ∃ pairs, d = Dict.insertAll dict pairs ∧ pairs.length = n ∧ WireEntries pairs w ∧
        Dict.Fresh dict pairs := by
  induction n generalizing dict with
  | zero =>
    refine (accepts_pure dict).congr fun d w => ?_
    refine ⟨?_, ?_⟩
    · intro given
      rcases given with ⟨rfl, rfl⟩
      exact ⟨[], rfl, rfl, .nil, Dict.fresh_nil _⟩
    · intro given
      rcases given with ⟨pairs, rfl, hlen, each, -⟩
      cases List.length_eq_zero_iff.1 hlen
      cases each
      exact ⟨rfl, rfl⟩
  | succ n ih =>
    refine ((accepts_key h dict).bind fun k => h.bind fun v => ih (dict.insert k v)).congr
      fun d w => ?_
    refine ⟨?_, ?_⟩
    · intro given
      rcases given with ⟨k, wk, _, ⟨form, hk⟩, entry, rfl⟩
      rcases entry with ⟨v, wv, ws, content, ⟨pairs, rfl, rfl, others, fresh⟩, rfl⟩
      refine ⟨(k, v) :: pairs, rfl, rfl, ?_, Dict.fresh_cons_iff.2 ⟨hk, fresh⟩⟩
      rw [← List.append_assoc]
      exact .cons form content others
    · intro given
      rcases given with ⟨pairs, rfl, hlen, each, fresh⟩
      cases each with
      | nil => cases hlen
      | @cons k v pairs wk wv ws form content others =>
        obtain ⟨hk, later⟩ := Dict.fresh_cons_iff.1 fresh
        exact ⟨k, wk, wv ++ ws, ⟨form, hk⟩, ⟨v, wv, ws, content,
          ⟨pairs, rfl, Nat.succ.inj hlen, others, later⟩, rfl⟩, List.append_assoc _ _ _⟩

theorem accepts_list {width : SizeClass} (inMarker : width.InMarker) :
    Accepts bound (do return Value.list (← repeated read (← size width) []))
      (Marker.list width).Follows := by
  refine ((accepts_size inMarker).bind fun n => (accepts_items h n).map).congr
    fun v w => ?_
  refine ⟨?_, ?_⟩
  · intro given
    rcases given with ⟨n, p, q, ⟨holds, rfl⟩, ⟨items, ⟨rfl, each⟩, rfl⟩, rfl⟩
    exact ⟨items, q, rfl, holds, each, rfl⟩
  · intro given
    rcases given with ⟨items, u, rfl, holds, each, rfl⟩
    exact ⟨_, _, u, ⟨holds, rfl⟩, ⟨items, ⟨rfl, each⟩, rfl⟩, rfl⟩

theorem accepts_dict {width : SizeClass} (inMarker : width.InMarker) :
    Accepts bound (do return Value.ofDict (← entries read (← size width) ∅))
      (Marker.dict width).Follows := by
  refine ((accepts_size inMarker).bind fun n => (accepts_entries h n ∅).map).congr
    fun v w => ?_
  refine ⟨?_, ?_⟩
  · intro given
    rcases given with ⟨n, p, q, ⟨holds, rfl⟩, ⟨_, ⟨pairs, rfl, rfl, each, fresh⟩, rfl⟩, rfl⟩
    have distinct := Dict.fresh_empty_iff.1 fresh
    obtain ⟨same, sorted⟩ := (Dict.toList_insertAll_eq_iff distinct).1 rfl
    exact ⟨pairs, _, q, rfl, holds, each, distinct, same, sorted, rfl⟩
  · intro given
    rcases given with ⟨pairs, entries, u, rfl, holds, each, distinct, same, sorted, rfl⟩
    refine ⟨_, _, u, ⟨holds, rfl⟩, ⟨_, ⟨pairs, rfl, rfl, each,
      Dict.fresh_empty_iff.2 distinct⟩, ?_⟩, rfl⟩
    rw [Value.ofDict, (Dict.toList_insertAll_eq_iff distinct).2 ⟨same, sorted⟩]

theorem accepts_struct {width : SizeClass} (inMarker : width.InMarker) :
    Accepts bound (do let n ← size width
                      need 1
                      let signature ← byte
                      return Value.struct signature (← repeated read n []))
      (Marker.struct width).Follows := by
  have signed (n : Nat) : Accepts bound (do need 1
                                            let signature ← byte
                                            return Value.struct signature (← repeated read n []))
      fun v w => ∃ signature fields u, v = .struct signature fields ∧ fields.length = n ∧
        WireItems fields u ∧ w = signature :: u := by
    have field := accepts_byte_bind fun signature =>
      (accepts_items h n).map (f := Value.struct signature)
    refine ((field.mono (Nat.le_succ bound)).need ?_).congr fun v w => ?_
    · rintro v _ ⟨signature, u, -, rfl⟩
      exact Nat.succ_le_succ (Nat.zero_le _)
    · refine ⟨?_, ?_⟩
      · intro given
        rcases given with ⟨signature, u, ⟨fields, ⟨hlen, each⟩, rfl⟩, rfl⟩
        exact ⟨signature, fields, u, rfl, hlen, each, rfl⟩
      · intro given
        rcases given with ⟨signature, fields, u, rfl, hlen, each, rfl⟩
        exact ⟨signature, u, ⟨fields, ⟨hlen, each⟩, rfl⟩, rfl⟩
  refine ((accepts_size inMarker).bind signed).congr fun v w => ?_
  refine ⟨?_, ?_⟩
  · intro given
    rcases given with ⟨n, p, _, ⟨holds, rfl⟩, ⟨signature, fields, u, rfl, rfl, each, rfl⟩, rfl⟩
    exact ⟨signature, fields, u, rfl, holds, each, rfl⟩
  · intro given
    rcases given with ⟨signature, fields, u, rfl, holds, each, rfl⟩
    exact ⟨_, _, _, ⟨holds, rfl⟩, ⟨signature, fields, u, rfl, rfl, each, rfl⟩, rfl⟩

end

/-! ## Values -/

/-- What follows a marker byte is read as the grammar says. -/
theorem accepts_nested (depth : Nat) : Accepts depth (nested depth) Wire := by
  induction depth with
  | zero =>
    intro c hc v rest
    refine ⟨fun h => ?_, fun h => ?_⟩
    · obtain ⟨c', h, -⟩ := h
      cases h
    · obtain ⟨w, hw, form⟩ := h
      rw [List.length_eq_zero_iff.1 (Nat.le_zero.1 hc)] at hw
      rw [(List.append_eq_nil_iff.1 hw.symm).1] at form
      exact absurd form not_wire_nil
  | succ depth ih =>
    have first (v : Value) (w : Bytes) : (∃ b q, Wire v (b :: q) ∧ w = b :: q) ↔ Wire v w := by
      refine ⟨fun h => ?_, fun form => ?_⟩
      · obtain ⟨b, q, form, rfl⟩ := h
        exact form
      · obtain ⟨b, q, rfl, -⟩ := form.follows
        exact ⟨b, q, form, rfl⟩
    refine accepts_begin_bind (Accepts.need ((accepts_byte_bind fun b => ?_).congr first) ?_)
    · simp only [wire_cons_iff]
      cases announced : Marker.ofByte b with
      | null => exact accepts_pure _
      | boolean x => exact accepts_pure _
      | float => exact accepts_float.map.congr fun v w => exists_congr fun x => and_comm
      | tinyInt i => exact accepts_pure _
      | int width =>
        have hw : width ≠ .tiny := by
          intro heq
          subst heq
          cases IntWidth.ofByte_eq_int_iff.1 announced
        refine (accepts_integer hw).map.congr fun v w => exists_congr fun i => ?_
        exact and_comm
      | string width =>
        exact accepts_string (Category.inMarker_of_ofByte (c := .string) announced)
      | list width => exact accepts_list ih (Category.inMarker_of_ofByte (c := .list) announced)
      | dict width => exact accepts_dict ih (Category.inMarker_of_ofByte (c := .dict) announced)
      | struct width =>
        exact accepts_struct ih (Category.inMarker_of_ofByte (c := .struct) announced)
      | reserved =>
        intro c hc v rest
        refine ⟨fun h => ?_, fun h => ?_⟩
        · obtain ⟨c', h, -⟩ := h
          cases h
        · obtain ⟨w, -, h⟩ := h
          exact h.elim
    · intro v w form
      obtain ⟨b, q, rfl, -⟩ := form.follows
      exact Nat.succ_le_succ (Nat.zero_le _)

theorem accepts_value : Accepts bound value Wire := by
  intro c _
  exact accepts_nested (c.rest.length + 1) c (Nat.le_succ _)

/-- A form of a value is read as that value from any cursor that stands before it. -/
theorem value_of_wire {v : Value} {w : Bytes} (form : Wire v w) (rest : Bytes) (begun : Nat)
    (events : Array Event) :
    ∃ d, value { rest := w ++ rest, begun, events } = .ok v d ∧ d.rest = rest := by
  have reads : Accepts (w ++ rest).length value Wire := accepts_value
  have accepted := reads { rest := w ++ rest, begun, events } (Nat.le_refl _) v rest
  exact accepted.2 ⟨w, rfl, form⟩

theorem wholeValue_eq_ok_iff {c d : Cursor} {v : Value} :
    wholeValue c = .ok v d ↔ value c = .ok v d ∧ d.rest = [] := by
  unfold wholeValue
  rw [EStateM.bind_eq_ok_iff]
  refine ⟨fun h => ?_, fun h => ?_⟩
  · obtain ⟨u, c', first, checked⟩ := h
    change (if c'.rest.isEmpty then pure u else refuse _ : Reader Value) c' = _ at checked
    cases left : c'.rest with
    | nil =>
      rw [left] at checked
      cases checked
      exact ⟨first, left⟩
    | cons b rest =>
      rw [left] at checked
      cases checked
  · obtain ⟨first, left⟩ := h
    refine ⟨v, d, first, ?_⟩
    show (if d.rest.isEmpty then pure v else refuse _ : Reader Value) d = _
    rw [left]
    rfl

/-- Input that holds one value and nothing else is read exactly if it is a form of the value. -/
theorem ofBytes_eq_ok_iff {bs : Bytes} {v : Value} : Value.ofBytes bs = .ok v ↔ Wire v bs := by
  have reads : Accepts bs.length value Wire := accepts_value
  have accepted := reads { rest := bs } (Nat.le_refl _) v []
  simp only [List.append_nil, exists_eq_left'] at accepted
  rw [← accepted]
  simp only [← wholeValue_eq_ok_iff]
  unfold Value.ofBytes Value.decoded
  cases wholeValue { rest := bs } with
  | ok u c => simp
  | error stop c => simp

/-- From any cursor the next value is read, up to a given place, exactly if the bytes before that
place are one of its forms; and a byte string is read as a whole exactly if it is such a form. -/
theorem value_eq_ok_iff_wire (c : Cursor) (v : Value) :
    (∀ rest, (∃ d, value c = .ok v d ∧ d.rest = rest) ↔ ∃ w, c.rest = w ++ rest ∧ Wire v w) ∧
      (Value.ofBytes c.rest = .ok v ↔ Wire v c.rest) := by
  have reads : Accepts c.rest.length value Wire := accepts_value
  exact ⟨reads c (Nat.le_refl _) v, ofBytes_eq_ok_iff⟩

end PackStream.Reader
