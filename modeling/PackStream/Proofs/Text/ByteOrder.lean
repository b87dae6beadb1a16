import PackStream.Text.Utf8

/-!
# The order of texts

Texts are ordered by their code points, one after the other. UTF-8 keeps that order: the bytes of
two texts compare as the texts do.

Main statement: `encode_lt_encode_iff`.
-/

set_option autoImplicit false

namespace PackStream.Utf8

/-- What follows two different strings of bytes of one length does not change how they compare. -/
theorem append_lt_append {as bs us vs : Bytes} (len : as.length = bs.length) (h : as < bs) :
    as ++ us < bs ++ vs := by
  induction as generalizing bs with
  | nil =>
    rw [List.length_eq_zero_iff.1 len.symm] at h
    exact absurd h (List.lt_irrefl _)
  | cons a as ih =>
    cases bs with
    | nil => cases len
    | cons b bs =>
      simp only [List.cons_append, List.cons_lt_cons_iff] at h ⊢
      rcases h with first | ⟨same, others⟩
      · exact .inl first
      · exact .inr ⟨same, ih (Nat.succ.inj len) others⟩

theorem ofNat_cons_lt {a b : Nat} {as bs : Bytes} (h : a % 256 < b % 256) :
    UInt8.ofNat a :: as < UInt8.ofNat b :: bs := by
  apply List.cons_lt_cons_iff.2
  left
  rw [UInt8.lt_iff_toNat_lt, UInt8.toNat_ofNat', UInt8.toNat_ofNat']
  exact h

/-- A greater character has a greater first byte if it has more bytes. If it has as many, they
differ in the first place where the digits of the code points in base 64 do. -/
theorem encodeChar_append_lt {c d : Char} (h : c < d) (us vs : Bytes) :
    String.utf8EncodeChar c ++ us < String.utf8EncodeChar d ++ vs := by
  have lt : c.val.toNat < d.val.toNat := h
  have bound : d.val.toNat < 0x110000 := by
    have valid := d.valid
    unfold UInt32.isValidChar Nat.isValidChar at valid
    omega
  unfold String.utf8EncodeChar
  generalize c.val.toNat = m at lt ⊢
  generalize d.val.toNat = n at lt bound ⊢
  dsimp only
  have byte (k : Nat) : (UInt8.ofNat k).toNat = k % 256 := UInt8.toNat_ofNat'
  by_cases one : n ≤ 0x7F
  · rw [if_pos one, if_pos (by omega)]
    refine append_lt_append (by simp) ?_
    simp only [List.cons_lt_cons_iff, UInt8.lt_iff_toNat_lt, ← UInt8.toNat_inj, byte]
    omega
  rw [if_neg one]
  by_cases two : n ≤ 0x7FF
  · rw [if_pos two]
    by_cases short : m ≤ 0x7F
    · rw [if_pos short]
      exact ofNat_cons_lt (by omega)
    · rw [if_neg short, if_pos (by omega)]
      refine append_lt_append (by simp) ?_
      simp only [List.cons_lt_cons_iff, UInt8.lt_iff_toNat_lt, ← UInt8.toNat_inj, byte]
      omega
  rw [if_neg two]
  by_cases three : n ≤ 0xFFFF
  · rw [if_pos three]
    by_cases short : m ≤ 0x7F
    · rw [if_pos short]
      exact ofNat_cons_lt (by omega)
    rw [if_neg short]
    by_cases medium : m ≤ 0x7FF
    · rw [if_pos medium]
      exact ofNat_cons_lt (by omega)
    · rw [if_neg medium, if_pos (by omega)]
      refine append_lt_append (by simp) ?_
      simp only [List.cons_lt_cons_iff, UInt8.lt_iff_toNat_lt, ← UInt8.toNat_inj, byte]
      omega
  · rw [if_neg three]
    by_cases short : m ≤ 0x7F
    · rw [if_pos short]
      exact ofNat_cons_lt (by omega)
    rw [if_neg short]
    by_cases medium : m ≤ 0x7FF
    · rw [if_pos medium]
      exact ofNat_cons_lt (by omega)
    rw [if_neg medium]
    by_cases long : m ≤ 0xFFFF
    · rw [if_pos long]
      exact ofNat_cons_lt (by omega)
    · rw [if_neg long]
      refine append_lt_append (by simp) ?_
      have tail (k : Nat) : (UInt8.ofNat (k % 64 + 128)).toNat = k % 64 + 128 := by
        rw [byte]
        omega
      have lead {k : Nat} (hk : k < 0x110000) :
          (UInt8.ofNat (k / 262144 % 8 + 240)).toNat = k / 262144 + 240 := by
        rw [byte]
        omega
      simp only [List.cons_lt_cons_iff, UInt8.lt_iff_toNat_lt, ← UInt8.toNat_inj, tail,
        lead bound, lead (Nat.lt_trans lt bound)]
      omega

theorem flatMap_encodeChar_lt {cs ds : List Char} (h : cs < ds) :
    cs.flatMap String.utf8EncodeChar < ds.flatMap String.utf8EncodeChar := by
  induction cs generalizing ds with
  | nil =>
    cases ds with
    | nil => exact absurd h (List.lt_irrefl _)
    | cons d ds =>
      rw [List.flatMap_nil, List.flatMap_cons]
      cases bytes : String.utf8EncodeChar d with
      | nil => exact absurd bytes String.utf8EncodeChar_ne_nil
      | cons b bs => exact List.nil_lt_cons _ _
  | cons c cs ih =>
    cases ds with
    | nil => exact absurd h (List.not_lt_nil _)
    | cons d ds =>
      rw [List.flatMap_cons, List.flatMap_cons]
      rcases List.cons_lt_cons_iff.1 h with first | ⟨rfl, others⟩
      · exact encodeChar_append_lt first _ _
      · exact List.append_left_lt (ih others)

theorem encode_eq_flatMap (s : String) :
    encode s = s.toList.flatMap String.utf8EncodeChar := by
  rw [encode, ← String.utf8Encode_toList, List.utf8Encode, List.data_toByteArray]

/-- Texts compare as their bytes do. -/
theorem encode_lt_encode_iff {s t : String} : encode s < encode t ↔ s < t := by
  have increasing {s t : String} (h : s < t) : encode s < encode t := by
    rw [encode_eq_flatMap, encode_eq_flatMap]
    exact flatMap_encodeChar_lt h
  refine ⟨fun h => ?_, increasing⟩
  by_cases less : s < t
  · exact less
  by_cases greater : t < s
  · exact absurd (increasing greater) (List.lt_asymm h)
  · have same := String.le_antisymm (String.not_lt.1 greater) (String.not_lt.1 less)
    rw [same] at h
    exact absurd h (List.lt_irrefl _)

end PackStream.Utf8
