import PackStream.Proofs.Decoding.Acceptance
import PackStream.Proofs.Decoding.Parts
import PackStream.Proofs.Wire.KeyFault

/-!
# Keys that are refused

Reading refuses a key as soon as it has read it, and before it looks at anything after it. So it
stops right after the first bad key, with the error for that key, whatever follows; and it stops
with such an error nowhere else.

Main statements: `refusesKey_nested`, and `value_refuses_first_bad_key`.
-/

set_option autoImplicit false

namespace PackStream.Reader

variable {α β : Type} {bound : Nat}

/-- On input of at most `bound` bytes, the reader stops with an error about a key exactly on what
begins with the bytes that go with the error, and leaves what follows them. -/
def RefusesKey (bound : Nat) (r : Reader α) (F : DecodeError → Bytes → Prop) : Prop :=
  ∀ c : Cursor, c.rest.length ≤ bound → ∀ error : DecodeError, error.IsOfKey → ∀ rest : Bytes,
    (∃ d, r c = .error (.refused error) d ∧ d.rest = rest) ↔
      ∃ w, c.rest = w ++ rest ∧ F error w

theorem RefusesKey.congr {r : Reader α} {F G : DecodeError → Bytes → Prop}
    (h : RefusesKey bound r F) (same : ∀ error w, error.IsOfKey → (F error w ↔ G error w)) :
    RefusesKey bound r G := by
  intro c hc error ofKey rest
  rw [h c hc error ofKey rest]
  exact exists_congr fun w => and_congr_right fun _ => same error w ofKey

theorem RefusesKey.mono {n : Nat} {r : Reader α} {F : DecodeError → Bytes → Prop}
    (h : RefusesKey n r F) (le : bound ≤ n) : RefusesKey bound r F :=
  fun c hc => h c (Nat.le_trans hc le)

/-! ## Ways in which readers are put together -/

theorem refusesKey_pure (a : α) : RefusesKey bound (pure a) fun _ _ => False := by
  intro c _ error _ rest
  constructor
  · rintro ⟨d, failed, -⟩
    cases failed
  · rintro ⟨w, -, fault⟩
    exact fault.elim

theorem refusesKey_refuse (error : DecodeError) :
    RefusesKey bound (refuse error : Reader α) fun error' w => error' = error ∧ w = [] := by
  intro c _ error' _ rest
  constructor
  · rintro ⟨d, failed, rfl⟩
    cases failed
    exact ⟨[], rfl, rfl, rfl⟩
  · rintro ⟨w, hw, rfl, rfl⟩
    exact ⟨c, rfl, hw⟩

/-- An error about a key comes from the first reader, or from the second after the first has
accepted what is before. -/
theorem RefusesKey.bind {r : Reader α} {k : α → Reader β} {L : α → Bytes → Prop}
    {F : DecodeError → Bytes → Prop} {G : α → DecodeError → Bytes → Prop}
    (hr : RefusesKey bound r F) (accepts : Accepts bound r L)
    (hk : ∀ a, RefusesKey bound (k a) (G a)) :
    RefusesKey bound (r >>= k) fun error w =>
      F error w ∨ ∃ a p q, L a p ∧ G a error q ∧ w = p ++ q := by
  intro c hc error ofKey rest
  constructor
  · rintro ⟨d, failed, rfl⟩
    obtain first | ⟨a, c', first, second⟩ := EStateM.bind_eq_error_iff.1 failed
    · obtain ⟨w, hw, fault⟩ := (hr c hc error ofKey d.rest).1 ⟨d, first, rfl⟩
      exact ⟨w, hw, .inl fault⟩
    · obtain ⟨p, hp, hL⟩ := (accepts c hc a c'.rest).1 ⟨c', first, rfl⟩
      have hc' := accepts.length_le_of_ok hc first
      obtain ⟨q, hq, fault⟩ := (hk a c' hc' error ofKey d.rest).1 ⟨d, second, rfl⟩
      exact ⟨p ++ q, by rw [hp, hq, List.append_assoc], .inr ⟨a, p, q, hL, fault, rfl⟩⟩
  · rintro ⟨_, hw, fault | ⟨a, p, q, hL, fault, rfl⟩⟩
    · obtain ⟨d, first, left⟩ := (hr c hc error ofKey rest).2 ⟨_, hw, fault⟩
      exact ⟨d, EStateM.bind_eq_error_iff.2 (.inl first), left⟩
    · rw [List.append_assoc] at hw
      obtain ⟨c', first, left⟩ := (accepts c hc a (q ++ rest)).2 ⟨p, hw, hL⟩
      have hc' := accepts.length_le_of_ok hc first
      obtain ⟨d, second, done⟩ := (hk a c' hc' error ofKey rest).2 ⟨q, left, fault⟩
      exact ⟨d, EStateM.bind_eq_error_iff.2 (.inr ⟨a, c', first, second⟩), done⟩

/-- What is done with a result that was read makes no difference. -/
theorem RefusesKey.map {r : Reader α} {L : α → Bytes → Prop} {F : DecodeError → Bytes → Prop}
    (hr : RefusesKey bound r F) (accepts : Accepts bound r L) (f : α → β) :
    RefusesKey bound (r >>= fun a => pure (f a)) F := by
  refine (hr.bind accepts fun a => refusesKey_pure (f a)).congr ?_
  intro error w _
  simp

/-- Missing bytes are not an error about a key. -/
theorem refusesKey_reads {n : Nat} {r : Reader α} {k : α → Reader β} (takes : Takes n r)
    (hk : ∀ a, RefusesKey bound (k a) fun _ _ => False) :
    RefusesKey bound (need n >>= fun _ => r >>= k) fun _ _ => False := by
  intro c hc error ofKey rest
  constructor
  · rintro ⟨d, failed, -⟩
    obtain ⟨-, short⟩ | ⟨a, c', -, -, left, same⟩ := takes.need_bind_apply k c
    · cases short.symm.trans failed
      exact ofKey.elim
    · obtain ⟨w, -, fault⟩ :=
        (hk a c' (by omega) error ofKey d.rest).1 ⟨d, same.symm.trans failed, rfl⟩
      exact fault.elim
  · rintro ⟨w, -, fault⟩
    exact fault.elim

theorem refusesKey_byte {k : UInt8 → Reader α} {G : UInt8 → DecodeError → Bytes → Prop}
    (hk : ∀ b, RefusesKey bound (k b) (G b)) :
    RefusesKey (bound + 1) (need 1 >>= fun _ => byte >>= k) fun error w =>
      ∃ b q, G b error q ∧ w = b :: q := by
  intro c hc error ofKey rest
  obtain ⟨_ | ⟨b, input⟩, begun, events⟩ := c
  · constructor
    · rintro ⟨d, failed, -⟩
      cases failed
      exact ofKey.elim
    · rintro ⟨_, hw, b, q, -, rfl⟩
      cases hw
  · have inner := hk b { rest := input, begun, events } (Nat.le_of_succ_le_succ hc) error ofKey rest
    constructor
    · rintro ⟨d, failed, left⟩
      obtain ⟨q, hq, fault⟩ := inner.1 ⟨d, failed, left⟩
      exact ⟨b :: q, congrArg (b :: ·) hq, b, q, fault, rfl⟩
    · rintro ⟨_, hw, b', q, fault, rfl⟩
      cases hw
      exact inner.2 ⟨q, rfl, fault⟩

theorem refusesKey_begin {r : Reader α} {F : DecodeError → Bytes → Prop}
    (h : RefusesKey bound r F) : RefusesKey bound (begin >>= fun _ => r) F := by
  intro c hc error ofKey rest
  obtain ⟨input, begun, events⟩ := c
  exact h { rest := input, begun := begun + 1, events } hc error ofKey rest

/-! ## Parts without keys -/

theorem refusesKey_field (n : Nat) (f : Bytes → α) :
    RefusesKey bound (do need n; return f (← take n)) fun _ _ => False :=
  refusesKey_reads (takes_take n) fun bs => refusesKey_pure (f bs)

theorem refusesKey_size (width : SizeClass) :
    RefusesKey bound (size width) fun _ _ => False := by
  cases width with
  | tiny m => exact refusesKey_field 0 fun _ => m.toNat
  | size8 => exact refusesKey_field 1 Bytes.ofBigEndian
  | size16 => exact refusesKey_field 2 Bytes.ofBigEndian
  | size32 => exact refusesKey_field 4 Bytes.ofBigEndian

/-- A size that was read has the width of its class. -/
theorem refusesKey_size_bind {width : SizeClass} (inMarker : width.InMarker) {k : Nat → Reader α}
    {G : Nat → DecodeError → Bytes → Prop} (hk : ∀ n, RefusesKey bound (k n) (G n)) :
    RefusesKey bound (size width >>= k) fun error w =>
      ∃ n u, width.Holds n ∧ G n error u ∧ w = Bytes.bigEndian width.prefixWidth n ++ u := by
  refine ((refusesKey_size width).bind (accepts_size inMarker) hk).congr ?_
  intro error w _
  constructor
  · rintro (fault | ⟨n, _, u, ⟨holds, rfl⟩, fault, rfl⟩)
    · exact fault.elim
    · exact ⟨n, u, holds, fault, rfl⟩
  · rintro ⟨n, u, holds, fault, rfl⟩
    exact .inr ⟨n, _, u, ⟨holds, rfl⟩, fault, rfl⟩

theorem refusesKey_integer {width : IntWidth} (wide : width ≠ .tiny) :
    RefusesKey bound (integer width) fun _ _ => False := by
  cases width with
  | tiny => exact absurd rfl wide
  | int8 => exact refusesKey_field 1 ofTwosComplement
  | int16 => exact refusesKey_field 2 ofTwosComplement
  | int32 => exact refusesKey_field 4 ofTwosComplement
  | int64 => exact refusesKey_field 8 ofTwosComplement

theorem refusesKey_float : RefusesKey bound float fun _ _ => False :=
  refusesKey_field 8 fun bs => (⟨UInt64.ofNat (Bytes.ofBigEndian bs)⟩ : Binary64)

theorem refusesKey_text (n : Nat) : RefusesKey bound (text n) fun _ _ => False := by
  refine refusesKey_reads (takes_take n) fun bs => ?_
  cases Utf8.decode bs with
  | ok s => exact refusesKey_pure s
  | error fault =>
    refine (refusesKey_refuse (.invalidUtf8 fault)).congr ?_
    rintro error w ofKey
    constructor
    · rintro ⟨rfl, -⟩
      exact ofKey
    · exact False.elim

theorem refusesKey_string {width : SizeClass} (inMarker : width.InMarker) :
    RefusesKey bound (do return Value.string (← text (← size width))) fun _ _ => False := by
  have content (n : Nat) : RefusesKey bound (do return Value.string (← text n)) fun _ _ => False :=
    (refusesKey_text n).map (accepts_text n) Value.string
  refine (refusesKey_size_bind inMarker content).congr ?_
  intro error w _
  simp

theorem refusesKey_reserved (marker : UInt8) :
    RefusesKey bound (do report (.reservedMarker marker)
                         refuse (.unknownMarker marker) : Reader Value) fun _ _ => False := by
  intro c _ error ofKey rest
  obtain ⟨input, begun, events⟩ := c
  constructor
  · rintro ⟨d, failed, -⟩
    cases failed
    exact ofKey.elim
  · rintro ⟨w, -, fault⟩
    exact fault.elim

/-! ## Parts made of values -/

section

variable {read : Reader Value} (accepts : Accepts bound read Wire)
  (refuses : RefusesKey bound read KeyFault)

include accepts refuses

theorem refusesKey_repeated (n : Nat) (done : List Value) :
    RefusesKey bound (repeated read n done) (ItemsFault n) := by
  induction n generalizing done with
  | zero =>
    refine (refusesKey_pure done.reverse).congr ?_
    intro error w _
    exact ⟨False.elim, not_itemsFault_zero⟩
  | succ n ih =>
    refine (refuses.bind accepts fun v => ih (v :: done)).congr ?_
    intro error w _
    exact itemsFault_succ_iff.symm

/-- A value is refused as a key after it is read, for what it is or because it is a key already. -/
theorem refusesKey_key (seen : Dict) :
    RefusesKey bound (key read seen) fun error w =>
      KeyFault error w ∨ ∃ v, BadKey seen.keys v error ∧ Wire v w := by
  unfold key
  refine (refuses.bind (G := fun v error q => BadKey seen.keys v error ∧ q = []) accepts
    fun v => ?_).congr ?_
  · cases v with
    | string s =>
      have mem_keys : s ∈ seen.keys ↔ seen.contains s := by
        rw [Std.TreeMap.mem_keys, Std.TreeMap.contains_iff_mem]
      simp only [badKey_string_iff, mem_keys]
      by_cases known : seen.contains s
      · rw [if_pos known]
        refine (refusesKey_refuse (.duplicateKey s)).congr ?_
        intro error q _
        rw [and_iff_right known]
      · rw [if_neg known]
        refine (refusesKey_pure s).congr ?_
        intro error q _
        simp only [known, Bool.false_eq_true, false_and]
    | null | boolean | integer | float | list | dict | struct =>
      refine (refusesKey_refuse (.nonStringKey _)).congr ?_
      intro error q _
      exact and_congr_left fun _ => (badKey_iff_of_kind_ne (by nofun)).symm
  · intro error w _
    refine or_congr_right ⟨?_, ?_⟩
    · rintro ⟨v, p, _, form, ⟨bad, rfl⟩, rfl⟩
      exact ⟨v, bad, by rwa [List.append_nil]⟩
    · rintro ⟨v, bad, form⟩
      exact ⟨v, w, [], form, ⟨bad, rfl⟩, (List.append_nil w).symm⟩

theorem refusesKey_entries (n : Nat) (dict : Dict) :
    RefusesKey bound (entries read n dict) (EntriesFault dict.keys n) := by
  induction n generalizing dict with
  | zero =>
    refine (refusesKey_pure dict).congr ?_
    intro error w _
    exact ⟨False.elim, not_entriesFault_zero⟩
  | succ n ih =>
    have content (k : String) := refuses.bind accepts fun v => ih (dict.insert k v)
    refine ((refusesKey_key accepts refuses dict).bind (accepts_key accepts dict) content).congr ?_
    intro error w _
    have mem_keys (k : String) : k ∈ dict.keys ↔ k ∈ dict := Std.TreeMap.mem_keys
    rw [entriesFault_succ_iff]
    -- The reader meets the bad key while it reads a key, or takes it for one, or meets it in the
    -- value; or else it goes on with one more key.
    constructor
    · rintro ((fault | ⟨v, bad, form⟩) | ⟨k, p, _, ⟨form, new⟩, fault | later, rfl⟩)
      · exact .inl (.inKey fault)
      · exact .inl (.badKey bad form)
      · exact .inl (.inContent form (mt (mem_keys k).1 new) fault)
      · obtain ⟨v, q, t, content, fault, rfl⟩ := later
        refine .inr ⟨k, p, _, ⟨form, mt (mem_keys k).1 new⟩, ⟨v, q, t, content, ?_, rfl⟩, rfl⟩
        exact fault.congr fun j => dict.mem_keys_insert_iff
    · rintro (fault | ⟨k, p, _, ⟨form, new⟩, ⟨v, q, t, content, fault, rfl⟩, rfl⟩)
      · cases fault with
        | badKey bad form => exact .inl (.inr ⟨_, bad, form⟩)
        | inKey fault => exact .inl (.inl fault)
        | inContent form new fault =>
          exact .inr ⟨_, _, _, ⟨form, mt (mem_keys _).2 new⟩, .inl fault, rfl⟩
      · refine .inr ⟨k, p, _, ⟨form, mt (mem_keys k).2 new⟩, .inr ⟨v, q, t, content, ?_, rfl⟩, rfl⟩
        exact fault.congr fun j => dict.mem_keys_insert_iff.symm

theorem refusesKey_list {width : SizeClass} (inMarker : width.InMarker) :
    RefusesKey bound (do return Value.list (← repeated read (← size width) []))
      (Marker.list width).Faults := by
  have items (n : Nat) := (refusesKey_repeated accepts refuses n []).map
    (accepts_repeated accepts n []) Value.list
  exact refusesKey_size_bind inMarker items

theorem refusesKey_dict {width : SizeClass} (inMarker : width.InMarker) :
    RefusesKey bound (do return Value.ofDict (← entries read (← size width) ∅))
      (Marker.dict width).Faults := by
  have inside (n : Nat) := (refusesKey_entries accepts refuses n ∅).map
    (accepts_entries accepts n ∅) Value.ofDict
  exact refusesKey_size_bind inMarker inside

theorem refusesKey_struct {width : SizeClass} (inMarker : width.InMarker) :
    RefusesKey bound (do let n ← size width
                         need 1
                         let signature ← byte
                         return Value.struct signature (← repeated read n []))
      (Marker.struct width).Faults := by
  have fields (n : Nat) (signature : UInt8) := (refusesKey_repeated accepts refuses n []).map
    (accepts_repeated accepts n []) (Value.struct signature)
  have signed (n : Nat) := (refusesKey_byte (fields n)).mono (Nat.le_succ bound)
  refine (refusesKey_size_bind inMarker signed).congr ?_
  intro error w _
  constructor
  · rintro ⟨n, _, holds, ⟨signature, u, fault, rfl⟩, rfl⟩
    exact ⟨n, signature, u, holds, fault, rfl⟩
  · rintro ⟨n, signature, u, holds, fault, rfl⟩
    exact ⟨n, _, holds, ⟨signature, u, fault, rfl⟩, rfl⟩

/-- Only in a list, a dictionary or a structure can there be a bad key. -/
theorem refusesKey_announced (marker : UInt8) :
    RefusesKey bound (announced read marker) (Marker.ofByte marker).Faults := by
  unfold announced
  cases what : Marker.ofByte marker with
  | null => exact refusesKey_pure _
  | boolean b => exact refusesKey_pure _
  | float => exact refusesKey_float.map accepts_float Value.float
  | tinyInt i => exact refusesKey_pure _
  | int width =>
    have wide : width ≠ .tiny := by
      rintro rfl
      cases IntWidth.ofByte_eq_int_iff.1 what
    exact (refusesKey_integer wide).map (accepts_integer wide) Value.integer
  | string width =>
    exact refusesKey_string (Category.inMarker_of_ofByte (c := .string) what)
  | list width =>
    exact refusesKey_list accepts refuses (Category.inMarker_of_ofByte (c := .list) what)
  | dict width =>
    exact refusesKey_dict accepts refuses (Category.inMarker_of_ofByte (c := .dict) what)
  | struct width =>
    exact refusesKey_struct accepts refuses (Category.inMarker_of_ofByte (c := .struct) what)
  | reserved => exact refusesKey_reserved marker

end

/-! ## Values -/

/-- A bad key ends reading, however deep it lies. -/
theorem refusesKey_nested (depth : Nat) : RefusesKey depth (nested depth) KeyFault := by
  induction depth with
  | zero =>
    intro c hc error _ rest
    constructor
    · rintro ⟨d, failed, -⟩
      cases failed
    · rintro ⟨w, hw, fault⟩
      rw [List.length_eq_zero_iff.1 (Nat.le_zero.1 hc)] at hw
      rw [(List.append_eq_nil_iff.1 hw.symm).1] at fault
      exact absurd fault not_keyFault_nil
  | succ depth ih =>
    have inside := refusesKey_announced (accepts_nested depth) ih
    rw [nested_succ, level]
    refine (refusesKey_begin (refusesKey_byte inside)).congr ?_
    intro error w _
    constructor
    · rintro ⟨b, q, fault, rfl⟩
      exact keyFault_cons_iff.2 fault
    · intro fault
      obtain ⟨b, q, rfl, faults⟩ := fault.faults
      exact ⟨b, q, faults, rfl⟩

/-- From any cursor reading stops with an error about a key, up to a given place, exactly if the
bytes before that place are well formed up to the first bad key and end with it, and the error tells
what is wrong with that key. -/
theorem value_refuses_first_bad_key (c : Cursor) (rest : Bytes) :
    (∀ k, (∃ d, value c = .error (.refused (.duplicateKey k)) d ∧ d.rest = rest) ↔
        ∃ w, c.rest = w ++ rest ∧ KeyFault (.duplicateKey k) w) ∧
      ∀ kind, (∃ d, value c = .error (.refused (.nonStringKey kind)) d ∧ d.rest = rest) ↔
        ∃ w, c.rest = w ++ rest ∧ KeyFault (.nonStringKey kind) w := by
  have refuses := refusesKey_nested (c.rest.length + 1) c (Nat.le_succ _)
  exact ⟨fun k => refuses (.duplicateKey k) trivial rest,
    fun kind => refuses (.nonStringKey kind) trivial rest⟩

/-- A key is known again in another form, and what comes after it is not looked at. -/
example : value { rest := [0x91, 0xA2, 0x81, 0x61, 0x01, 0xD0, 0x01, 0x61, 0xC4] } =
    .error (.refused (.duplicateKey "a")) { rest := [0xC4], begun := 5 } := rfl

/-- Of the bytes of an input, there is at most one first bad key, and one error for it. -/
theorem keyFault_unique {error error' : DecodeError} {w w' rest rest' : Bytes}
    (fault : KeyFault error w) (fault' : KeyFault error' w') (same : w ++ rest = w' ++ rest') :
    error = error' ∧ w = w' := by
  have refuses := refusesKey_nested (w ++ rest).length { rest := w ++ rest } (Nat.le_refl _)
  obtain ⟨d, failed, left⟩ := (refuses error fault.isOfKey rest).2 ⟨w, rfl, fault⟩
  obtain ⟨d', failed', left'⟩ := (refuses error' fault'.isOfKey rest').2 ⟨w', same, fault'⟩
  cases failed.symm.trans failed'
  cases left.symm.trans left'
  exact ⟨rfl, List.append_cancel_right same⟩

end PackStream.Reader
