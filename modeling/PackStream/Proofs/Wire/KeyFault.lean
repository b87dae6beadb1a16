import PackStream.Decoding.Error
import PackStream.Proofs.Wire.Grammar

/-!
# Bad keys

A key of a dictionary is bad if it is a form of something other than a string, or of a string that
is a key already. `KeyFault error w` says that the bytes `w` are well formed up to the first bad
key and end with it, however deep it lies, and that `error` tells what is wrong with it.

Main statement: `keyFault_cons_iff`, these beginnings sorted by their first byte.
-/

set_option autoImplicit false

namespace PackStream

/-- Whether an error is about a key. -/
def DecodeError.IsOfKey : DecodeError → Prop
  | nonStringKey _ | duplicateKey _ => True
  | unexpectedEof _ _ | unknownMarker _ | invalidUtf8 _ | trailingBytes _ => False

/-- Why a value cannot be a key in addition to other keys. -/
inductive BadKey (keys : List String) : Value → DecodeError → Prop
  | duplicate {k : String} (seen : k ∈ keys) : BadKey keys (.string k) (.duplicateKey k)
  | nonString {v : Value} (other : v.kind ≠ .string) : BadKey keys v (.nonStringKey v.kind)

theorem badKey_string_iff {keys : List String} {s : String} {error : DecodeError} :
    BadKey keys (.string s) error ↔ s ∈ keys ∧ error = .duplicateKey s := by
  constructor
  · intro bad
    cases bad with
    | duplicate seen => exact ⟨seen, rfl⟩
    | nonString other => exact absurd rfl other
  · rintro ⟨seen, rfl⟩
    exact .duplicate seen

theorem badKey_iff_of_kind_ne {keys : List String} {v : Value} {error : DecodeError}
    (other : v.kind ≠ .string) : BadKey keys v error ↔ error = .nonStringKey v.kind := by
  constructor
  · intro bad
    cases bad with
    | duplicate => exact absurd rfl other
    | nonString => rfl
  · rintro rfl
    exact .nonString other

mutual

/-- The bytes of a value up to the end of the first bad key in it. An aggregate that the key lies in
has announced more than what is complete of it. -/
inductive KeyFault : DecodeError → Bytes → Prop
  | list {n : Nat} {before : List Value} {error : DecodeError} {h w t : Bytes}
      (header : SizeHeader .list n h) (items : WireItems before w) (fewer : before.length < n)
      (fault : KeyFault error t) : KeyFault error (h ++ (w ++ t))
  | dict {n : Nat} {before : List (String × Value)} {error : DecodeError} {h w t : Bytes}
      (header : SizeHeader .dict n h) (entries : WireEntries before w) (fewer : before.length < n)
      (distinct : (before.map Prod.fst).Nodup)
      (fault : EntryFault (before.map Prod.fst) error t) : KeyFault error (h ++ (w ++ t))
  | struct {n : Nat} {signature : UInt8} {before : List Value} {error : DecodeError}
      {h w t : Bytes} (header : SizeHeader .struct n h) (fields : WireItems before w)
      (fewer : before.length < n) (fault : KeyFault error t) :
      KeyFault error (h ++ signature :: (w ++ t))

/-- The bytes of an entry up to the end of the first bad key in it, after entries with given keys:
it is the key of the entry itself, or lies in that key, or in the value of the entry. -/
inductive EntryFault : List String → DecodeError → Bytes → Prop
  | badKey {keys : List String} {v : Value} {error : DecodeError} {w : Bytes}
      (bad : BadKey keys v error) (form : Wire v w) : EntryFault keys error w
  | inKey {keys : List String} {error : DecodeError} {w : Bytes} (fault : KeyFault error w) :
      EntryFault keys error w
  | inContent {keys : List String} {k : String} {error : DecodeError} {w t : Bytes}
      (key : Wire (.string k) w) (fresh : k ∉ keys) (fault : KeyFault error t) :
      EntryFault keys error (w ++ t)

end

theorem BadKey.isOfKey {keys : List String} {v : Value} {error : DecodeError}
    (bad : BadKey keys v error) : error.IsOfKey := by
  cases bad with
  | duplicate => trivial
  | nonString => trivial

mutual

theorem KeyFault.isOfKey {error : DecodeError} {w : Bytes} (fault : KeyFault error w) :
    error.IsOfKey := by
  match fault with
  | .list _ _ _ inner => exact inner.isOfKey
  | .dict _ _ _ _ inner => exact inner.isOfKey
  | .struct _ _ _ inner => exact inner.isOfKey

theorem EntryFault.isOfKey {keys : List String} {error : DecodeError} {w : Bytes}
    (fault : EntryFault keys error w) : error.IsOfKey := by
  match fault with
  | .badKey bad _ => exact bad.isOfKey
  | .inKey inner => exact inner.isOfKey
  | .inContent _ _ inner => exact inner.isOfKey

end

/-! ## Values and entries one after the other -/

/-- What is complete of `n` values, followed by a value up to a bad key. -/
def ItemsFault (n : Nat) (error : DecodeError) (w : Bytes) : Prop :=
  ∃ before u t, before.length < n ∧ WireItems before u ∧ KeyFault error t ∧ w = u ++ t

theorem not_itemsFault_zero {error : DecodeError} {w : Bytes} : ¬ ItemsFault 0 error w := by
  rintro ⟨before, u, t, fewer, -⟩
  exact Nat.not_lt_zero _ fewer

/-- The bad key lies in the first value or, if that is complete, in the others. -/
theorem itemsFault_succ_iff {n : Nat} {error : DecodeError} {w : Bytes} :
    ItemsFault (n + 1) error w ↔
      KeyFault error w ∨ ∃ v p q, Wire v p ∧ ItemsFault n error q ∧ w = p ++ q := by
  constructor
  · rintro ⟨before, u, t, fewer, items, fault, rfl⟩
    cases items with
    | nil => exact .inl fault
    | @cons v vs p q first others =>
      refine .inr ⟨v, p, q ++ t, first, ?_, List.append_assoc p q t⟩
      exact ⟨vs, q, t, Nat.lt_of_succ_lt_succ fewer, others, fault, rfl⟩
  · rintro (fault | ⟨v, p, _, first, ⟨before, u, t, fewer, items, fault, rfl⟩, rfl⟩)
    · exact ⟨[], [], w, Nat.succ_pos n, .nil, fault, rfl⟩
    · exact ⟨v :: before, p ++ u, t, Nat.succ_lt_succ fewer, .cons first items, fault,
        (List.append_assoc p u t).symm⟩

/-- What is complete of `n` entries in addition to others with given keys, followed by an entry up
to a bad key. -/
def EntriesFault (keys : List String) (n : Nat) (error : DecodeError) (w : Bytes) : Prop :=
  ∃ before u t, before.length < n ∧ WireEntries before u ∧ (before.map Prod.fst).Nodup ∧
    (∀ k ∈ before.map Prod.fst, k ∉ keys) ∧ EntryFault (before.map Prod.fst ++ keys) error t ∧
    w = u ++ t

section

variable {keys keys' : List String} {n : Nat} {error : DecodeError} {w : Bytes}

/-- Which keys there are is all that matters, not their order. -/
theorem EntryFault.congr (same : ∀ k, k ∈ keys ↔ k ∈ keys') (fault : EntryFault keys error w) :
    EntryFault keys' error w := by
  cases fault with
  | badKey bad form =>
    refine .badKey ?_ form
    cases bad with
    | duplicate seen => exact .duplicate ((same _).1 seen)
    | nonString other => exact .nonString other
  | inKey fault => exact .inKey fault
  | inContent key fresh fault => exact .inContent key (mt (same _).2 fresh) fault

theorem EntriesFault.congr (same : ∀ k, k ∈ keys ↔ k ∈ keys')
    (fault : EntriesFault keys n error w) : EntriesFault keys' n error w := by
  obtain ⟨before, u, t, fewer, entries, distinct, new, fault, rfl⟩ := fault
  refine ⟨before, u, t, fewer, entries, distinct, ?_, ?_, rfl⟩
  · intro k mem
    exact mt (same k).2 (new k mem)
  · apply fault.congr
    intro k
    rw [List.mem_append, List.mem_append, same]

theorem not_entriesFault_zero : ¬ EntriesFault keys 0 error w := by
  rintro ⟨before, u, t, fewer, -⟩
  exact Nat.not_lt_zero _ fewer

/-- The bad key lies in the first entry or, if that is complete and has a new key, in the others. -/
theorem entriesFault_succ_iff :
    EntriesFault keys (n + 1) error w ↔
      EntryFault keys error w ∨
        ∃ k p q, (Wire (.string k) p ∧ k ∉ keys) ∧
          (∃ v p' q', Wire v p' ∧ EntriesFault (k :: keys) n error q' ∧ q = p' ++ q') ∧
          w = p ++ q := by
  constructor
  · rintro ⟨before, u, t, fewer, entries, distinct, new, fault, rfl⟩
    cases entries with
    | nil => exact .inl fault
    | @cons k v es wk wv ws key content others =>
      obtain ⟨once, distinct⟩ := List.nodup_cons.1 distinct
      obtain ⟨fresh, new⟩ := List.forall_mem_cons.1 new
      have later : EntriesFault (k :: keys) n error (ws ++ t) := by
        refine ⟨es, ws, t, Nat.lt_of_succ_lt_succ fewer, others, distinct, ?_, ?_, rfl⟩
        · intro j mem
          rw [List.mem_cons, not_or]
          exact ⟨fun same => once (same ▸ mem), new j mem⟩
        · apply fault.congr
          intro j
          exact List.perm_middle.symm.mem_iff
      refine .inr ⟨k, wk, wv ++ (ws ++ t), ⟨key, fresh⟩, ⟨v, wv, ws ++ t, content, later, rfl⟩, ?_⟩
      simp only [List.append_assoc]
  · rintro (fault | ⟨k, wk, _, ⟨key, fresh⟩, ⟨v, wv, _, content, later, rfl⟩, rfl⟩)
    · exact ⟨[], [], w, Nat.succ_pos n, .nil, List.nodup_nil, nofun, fault, rfl⟩
    · obtain ⟨es, ws, t, fewer, others, distinct, new, fault, rfl⟩ := later
      refine ⟨(k, v) :: es, wk ++ wv ++ ws, t, Nat.succ_lt_succ fewer,
        .cons key content others, ?_, ?_, ?_, by simp only [List.append_assoc]⟩
      · refine List.nodup_cons.2 ⟨?_, distinct⟩
        intro mem
        exact new k mem List.mem_cons_self
      · refine List.forall_mem_cons.2 ⟨fresh, ?_⟩
        intro j mem
        exact mt (List.mem_cons_of_mem k) (new j mem)
      · apply fault.congr
        intro j
        exact List.perm_middle.mem_iff

end

/-! ## Sorted by their first byte -/

/-- What may follow a byte that announces a marker, up to a bad key. -/
def Marker.Faults : Marker → DecodeError → Bytes → Prop
  | .list width, error, w => ∃ n u, width.Holds n ∧ ItemsFault n error u ∧
      w = Bytes.bigEndian width.prefixWidth n ++ u
  | .dict width, error, w => ∃ n u, width.Holds n ∧ EntriesFault [] n error u ∧
      w = Bytes.bigEndian width.prefixWidth n ++ u
  | .struct width, error, w => ∃ n signature u, width.Holds n ∧ ItemsFault n error u ∧
      w = Bytes.bigEndian width.prefixWidth n ++ signature :: u
  | .null, _, _ | .boolean _, _, _ | .float, _, _ | .tinyInt _, _, _ | .int _, _, _
  | .string _, _, _ | .reserved, _, _ => False

theorem KeyFault.faults {error : DecodeError} {u : Bytes} (fault : KeyFault error u) :
    ∃ b w, u = b :: w ∧ (Marker.ofByte b).Faults error w := by
  cases fault with
  | list header items fewer fault =>
    obtain ⟨width, b, holds, announced, rfl⟩ := sizeHeader_iff_ofByte (c := .list).1 header
    refine ⟨b, _, rfl, ?_⟩
    rw [announced]
    exact ⟨_, _, holds, ⟨_, _, _, fewer, items, fault, rfl⟩, rfl⟩
  | dict header entries fewer distinct fault =>
    obtain ⟨width, b, holds, announced, rfl⟩ := sizeHeader_iff_ofByte (c := .dict).1 header
    refine ⟨b, _, rfl, ?_⟩
    rw [announced]
    rw [← List.append_nil (List.map _ _)] at fault
    exact ⟨_, _, holds, ⟨_, _, _, fewer, entries, distinct, fun _ _ => nofun, fault, rfl⟩, rfl⟩
  | struct header fields fewer fault =>
    obtain ⟨width, b, holds, announced, rfl⟩ := sizeHeader_iff_ofByte (c := .struct).1 header
    refine ⟨b, _, rfl, ?_⟩
    rw [announced]
    exact ⟨_, _, _, holds, ⟨_, _, _, fewer, fields, fault, rfl⟩, rfl⟩

theorem keyFault_of_faults {b : UInt8} {error : DecodeError} {w : Bytes}
    (h : (Marker.ofByte b).Faults error w) : KeyFault error (b :: w) := by
  cases announced : Marker.ofByte b with
  | list width =>
    rw [announced] at h
    obtain ⟨n, _, holds, ⟨before, u, t, fewer, items, fault, rfl⟩, rfl⟩ := h
    exact .list (sizeHeader_iff_ofByte (c := .list).2 ⟨width, b, holds, announced, rfl⟩) items
      fewer fault
  | dict width =>
    rw [announced] at h
    obtain ⟨n, _, holds, ⟨before, u, t, fewer, entries, distinct, -, fault, rfl⟩, rfl⟩ := h
    rw [List.append_nil] at fault
    exact .dict (sizeHeader_iff_ofByte (c := .dict).2 ⟨width, b, holds, announced, rfl⟩) entries
      fewer distinct fault
  | struct width =>
    rw [announced] at h
    obtain ⟨n, signature, _, holds, ⟨before, u, t, fewer, fields, fault, rfl⟩, rfl⟩ := h
    exact .struct (sizeHeader_iff_ofByte (c := .struct).2 ⟨width, b, holds, announced, rfl⟩) fields
      fewer fault
  | null | boolean | float | tinyInt | int | string | reserved =>
    rw [announced] at h
    exact h.elim

/-- The beginnings up to a bad key that open with a byte are those of what the byte announces. -/
theorem keyFault_cons_iff {b : UInt8} {error : DecodeError} {w : Bytes} :
    KeyFault error (b :: w) ↔ (Marker.ofByte b).Faults error w := by
  constructor
  · intro fault
    obtain ⟨b', w', same, faults⟩ := fault.faults
    cases same
    exact faults
  · exact keyFault_of_faults

theorem not_keyFault_nil {error : DecodeError} : ¬ KeyFault error [] := by
  intro fault
  obtain ⟨b, w, same, -⟩ := fault.faults
  cases same

end PackStream
