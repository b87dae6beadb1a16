import PackStream.Bytes
import PackStream.Proofs.Wire.Marker

/-!
# Size headers

A sized value opens with a header that announces its size. `SizeHeader f n h` says that the bytes
`h` announce the size `n` in the marker family `f`: any class will do that holds the size, not
only the narrowest.

Main statements: `sizeHeader_bytes`, the headers of each category byte by byte, and
`sizeHeader_iff_ofByte`, a header is a byte that announces the category and a class that holds the
size, followed by the size in the width of that class.
-/

set_option autoImplicit false

namespace PackStream

/-! ## Categories -/

/-- The categories whose values carry a size. -/
inductive Category where
  | string
  | list
  | dict
  | struct
  deriving DecidableEq

namespace Category

/-- The marker bytes of a category. -/
def family : Category → MarkerFamily
  | string => .string
  | list => .list
  | dict => .dict
  | struct => .struct

/-- What the marker of a category announces. -/
def marker : Category → SizeClass → Marker
  | string => .string
  | list => .list
  | dict => .dict
  | struct => .struct

/-- A byte announces a category and a class exactly if it is the family's marker of that class. -/
theorem ofByte_eq_marker_iff {c : Category} {b : UInt8} {width : SizeClass} :
    Marker.ofByte b = c.marker width ↔ c.family.byte? width = some b := by
  cases c <;> exact Marker.ofByte_eq_iff (by simp [marker])

theorem inMarker_of_ofByte {c : Category} {b : UInt8} {width : SizeClass}
    (h : Marker.ofByte b = c.marker width) : width.InMarker := by
  have announced := ofByte_eq_marker_iff.1 h
  unfold MarkerFamily.byte? at announced
  split at announced
  · assumption
  · cases announced

end Category

/-! ## Size classes -/

namespace SizeClass

/-- Whether a class can announce a size. -/
def Holds : SizeClass → Nat → Prop
  | .tiny m, n => n ≤ 15 ∧ m = UInt8.ofNat n
  | .size8, n => n < 0x100
  | .size16, n => n < 0x10000
  | .size32, n => n < 0x100000000

/-- Whether a class is the narrowest that can announce a size. -/
def Narrowest : SizeClass → Nat → Prop
  | .tiny m, n => n ≤ 15 ∧ m = UInt8.ofNat n
  | .size8, n => 16 ≤ n ∧ n ≤ 255
  | .size16, n => 256 ≤ n ∧ n ≤ 65535
  | .size32, n => 65536 ≤ n ∧ n < 0x100000000

theorem narrowest_of_ofSize? {n : Nat} {width : SizeClass} (h : ofSize? n = some width) :
    width.Narrowest n := by
  unfold ofSize? tinyMax at h
  by_cases tiny : n ≤ 15
  · rw [if_pos tiny] at h
    cases h
    exact ⟨tiny, rfl⟩
  rw [if_neg tiny] at h
  by_cases byte : n < 0x100
  · rw [if_pos byte] at h
    cases h
    exact ⟨by omega, by omega⟩
  rw [if_neg byte] at h
  by_cases word : n < 0x10000
  · rw [if_pos word] at h
    cases h
    exact ⟨by omega, by omega⟩
  rw [if_neg word] at h
  by_cases long : n < 0x100000000
  · rw [if_pos long] at h
    cases h
    exact ⟨by omega, long⟩
  · rw [if_neg long] at h
    cases h

theorem ofSize?_of_narrowest {n : Nat} {width : SizeClass} (h : width.Narrowest n) :
    ofSize? n = some width := by
  unfold ofSize? tinyMax
  cases width with
  | tiny m =>
    obtain ⟨tiny, rfl⟩ := h
    rw [if_pos tiny]
  | size8 =>
    obtain ⟨lo, hi⟩ := h
    rw [if_neg (by omega), if_pos (by omega)]
  | size16 =>
    obtain ⟨lo, hi⟩ := h
    rw [if_neg (by omega), if_neg (by omega), if_pos (by omega)]
  | size32 =>
    obtain ⟨lo, hi⟩ := h
    rw [if_neg (by omega), if_neg (by omega), if_neg (by omega), if_pos hi]

theorem ofSize?_eq_some_iff {n : Nat} {width : SizeClass} :
    ofSize? n = some width ↔ width.Narrowest n :=
  ⟨narrowest_of_ofSize?, ofSize?_of_narrowest⟩

theorem Narrowest.holds {width : SizeClass} {n : Nat} (h : width.Narrowest n) :
    width.Holds n := by
  cases width <;> simp only [Narrowest, Holds] at h ⊢ <;> omega

theorem Holds.inMarker {width : SizeClass} {n : Nat} (h : width.Holds n) : width.InMarker := by
  cases width with
  | tiny m =>
    obtain ⟨hn, rfl⟩ := h
    show UInt8.ofNat n ≤ 15
    rw [UInt8.le_iff_toNat_le, UInt8.toNat_ofNat']
    exact Nat.le_trans (Nat.mod_le _ _) hn
  | size8 | size16 | size32 => trivial

/-- Every size below `0x100000000` has a narrowest class. -/
theorem exists_narrowest {n : Nat} (h : n < 0x100000000) :
    ∃ width : SizeClass, width.Narrowest n := by
  by_cases tiny : n ≤ 15
  · exact ⟨.tiny (UInt8.ofNat n), tiny, rfl⟩
  · by_cases byte : n ≤ 255
    · exact ⟨.size8, by omega, byte⟩
    · by_cases word : n ≤ 65535
      · exact ⟨.size16, by omega, word⟩
      · exact ⟨.size32, by omega, h⟩

theorem Narrowest.prefixWidth_le {width other : SizeClass} {n : Nat} (h : width.Narrowest n)
    (ho : other.Holds n) : width.prefixWidth ≤ other.prefixWidth := by
  cases width <;> cases other <;> simp only [Narrowest, Holds, prefixWidth] at * <;> omega

end SizeClass

/-! ## What a family can announce -/

namespace MarkerFamily

/-- A family has a marker for every size up to its largest. -/
theorem exists_narrowest (f : MarkerFamily) {n : Nat} (h : n ≤ f.maxSize) :
    ∃ width b, width.Narrowest n ∧ f.marker? width = some b := by
  unfold maxSize at h
  by_cases word : n ≤ 65535
  · obtain ⟨width, narrowest⟩ := SizeClass.exists_narrowest (n := n) (by omega)
    cases width with
    | tiny | size8 | size16 => exact ⟨_, _, narrowest, rfl⟩
    | size32 =>
      obtain ⟨lo, -⟩ := narrowest
      omega
  · cases present : f.size32 with
    | none =>
      rw [present] at h
      exact absurd h word
    | some marker =>
      rw [present] at h
      have bound : n ≤ 0xFFFFFFFF := h
      exact ⟨.size32, marker, ⟨by omega, by omega⟩, present⟩

/-- No marker of a family announces a size above its largest. -/
theorem le_maxSize {f : MarkerFamily} {width : SizeClass} {n : Nat} {b : UInt8}
    (holds : width.Holds n) (present : f.marker? width = some b) : n ≤ f.maxSize := by
  have low : 0xFFFF ≤ f.maxSize := by
    unfold maxSize
    split <;> decide
  cases width with
  | tiny m =>
    obtain ⟨small, -⟩ := holds
    omega
  | size8 | size16 =>
    simp only [SizeClass.Holds] at holds
    omega
  | size32 =>
    have present' : f.size32 = some b := present
    rw [maxSize, present']
    exact Nat.le_of_lt_succ holds

end MarkerFamily

/-! ## Headers -/

/-- The headers that announce a size. A family without 32-bit marker has no fourth form. -/
inductive SizeHeader (f : MarkerFamily) (n : Nat) : Bytes → Prop
  | tiny (h : n ≤ 15) : SizeHeader f n [f.tiny + UInt8.ofNat n]
  | size8 (h : n < 0x100) : SizeHeader f n (f.size8 :: Bytes.bigEndian 1 n)
  | size16 (h : n < 0x10000) : SizeHeader f n (f.size16 :: Bytes.bigEndian 2 n)
  | size32 {marker : UInt8} (present : f.size32 = some marker) (h : n < 0x100000000) :
      SizeHeader f n (marker :: Bytes.bigEndian 4 n)

theorem sizeHeader_iff_forms {f : MarkerFamily} {n : Nat} {h : Bytes} :
    SizeHeader f n h ↔
      n ≤ 15 ∧ h = [f.tiny + UInt8.ofNat n] ∨
      n < 0x100 ∧ h = f.size8 :: Bytes.bigEndian 1 n ∨
      n < 0x10000 ∧ h = f.size16 :: Bytes.bigEndian 2 n ∨
      ∃ marker, f.size32 = some marker ∧ n < 0x100000000 ∧ h = marker :: Bytes.bigEndian 4 n := by
  constructor
  · intro header
    cases header with
    | tiny hn => exact .inl ⟨hn, rfl⟩
    | size8 hn => exact .inr (.inl ⟨hn, rfl⟩)
    | size16 hn => exact .inr (.inr (.inl ⟨hn, rfl⟩))
    | size32 present hn => exact .inr (.inr (.inr ⟨_, present, hn, rfl⟩))
  · intro given
    rcases given with ⟨hn, rfl⟩ | ⟨hn, rfl⟩ | ⟨hn, rfl⟩ | ⟨marker, present, hn, rfl⟩
    · exact .tiny hn
    · exact .size8 hn
    · exact .size16 hn
    · exact .size32 present hn

/-- The headers of the four categories, byte by byte. -/
theorem sizeHeader_bytes (n : Nat) (h : Bytes) :
    (SizeHeader .string n h ↔
      n ≤ 15 ∧ h = [0x80 + UInt8.ofNat n] ∨ n < 0x100 ∧ h = 0xD0 :: Bytes.bigEndian 1 n ∨
      n < 0x10000 ∧ h = 0xD1 :: Bytes.bigEndian 2 n ∨
      n < 0x100000000 ∧ h = 0xD2 :: Bytes.bigEndian 4 n) ∧
    (SizeHeader .list n h ↔
      n ≤ 15 ∧ h = [0x90 + UInt8.ofNat n] ∨ n < 0x100 ∧ h = 0xD4 :: Bytes.bigEndian 1 n ∨
      n < 0x10000 ∧ h = 0xD5 :: Bytes.bigEndian 2 n ∨
      n < 0x100000000 ∧ h = 0xD6 :: Bytes.bigEndian 4 n) ∧
    (SizeHeader .dict n h ↔
      n ≤ 15 ∧ h = [0xA0 + UInt8.ofNat n] ∨ n < 0x100 ∧ h = 0xD8 :: Bytes.bigEndian 1 n ∨
      n < 0x10000 ∧ h = 0xD9 :: Bytes.bigEndian 2 n ∨
      n < 0x100000000 ∧ h = 0xDA :: Bytes.bigEndian 4 n) ∧
    (SizeHeader .struct n h ↔
      n ≤ 15 ∧ h = [0xB0 + UInt8.ofNat n] ∨ n < 0x100 ∧ h = 0xDC :: Bytes.bigEndian 1 n ∨
      n < 0x10000 ∧ h = 0xDD :: Bytes.bigEndian 2 n) := by
  simp [sizeHeader_iff_forms, MarkerFamily.string, MarkerFamily.list, MarkerFamily.dict,
    MarkerFamily.struct]

/-- A tiny marker is the base of its family with the size in the low four bits. -/
theorem Category.marker?_tiny (c : Category) {n : Nat} (h : n ≤ 15) :
    c.family.marker? (.tiny (UInt8.ofNat n)) = some (c.family.tiny + UInt8.ofNat n) := by
  have all : ∀ n : Fin 16, c.family.marker? (.tiny (UInt8.ofNat n)) =
      some (c.family.tiny + UInt8.ofNat n) := by
    cases c <;> decide
  exact all ⟨n, Nat.lt_succ_of_le h⟩

/-- A header is the marker of a class that holds the size, and the size in the class's width. -/
theorem sizeHeader_iff {c : Category} {n : Nat} {h : Bytes} :
    SizeHeader c.family n h ↔ ∃ width b, width.Holds n ∧ c.family.marker? width = some b ∧
      h = b :: Bytes.bigEndian width.prefixWidth n := by
  refine ⟨?_, ?_⟩
  · intro header
    cases header with
    | tiny hn => exact ⟨.tiny (UInt8.ofNat n), _, ⟨hn, rfl⟩, c.marker?_tiny hn, rfl⟩
    | size8 hn => exact ⟨.size8, _, hn, rfl, rfl⟩
    | size16 hn => exact ⟨.size16, _, hn, rfl, rfl⟩
    | size32 present hn => exact ⟨.size32, _, hn, present, rfl⟩
  · intro given
    rcases given with ⟨width, b, holds, present, rfl⟩
    cases width with
    | tiny m =>
      obtain ⟨hn, rfl⟩ := holds
      rw [c.marker?_tiny hn] at present
      cases present
      exact .tiny hn
    | size8 =>
      cases present
      exact .size8 holds
    | size16 =>
      cases present
      exact .size16 holds
    | size32 => exact .size32 present holds

theorem Category.ofByte_of_marker? {c : Category} {width : SizeClass} {n : Nat} {b : UInt8}
    (holds : width.Holds n) (present : c.family.marker? width = some b) :
    Marker.ofByte b = c.marker width := by
  apply Category.ofByte_eq_marker_iff.2
  rw [MarkerFamily.byte?, if_pos holds.inMarker, present]

/-- A header opens with a byte that announces its category and a class that holds the size. -/
theorem sizeHeader_iff_ofByte {c : Category} {n : Nat} {h : Bytes} :
    SizeHeader c.family n h ↔ ∃ width b, width.Holds n ∧ Marker.ofByte b = c.marker width ∧
      h = b :: Bytes.bigEndian width.prefixWidth n := by
  rw [sizeHeader_iff]
  refine ⟨?_, ?_⟩
  · intro given
    rcases given with ⟨width, b, holds, present, rfl⟩
    exact ⟨width, b, holds, Category.ofByte_of_marker? holds present, rfl⟩
  · intro given
    rcases given with ⟨width, b, holds, announced, rfl⟩
    have present := Category.ofByte_eq_marker_iff.1 announced
    rw [MarkerFamily.byte?, if_pos holds.inMarker] at present
    exact ⟨width, b, holds, present, rfl⟩

theorem SizeHeader.fits {c : Category} {n : Nat} {h : Bytes} (header : SizeHeader c.family n h) :
    n ≤ c.family.maxSize := by
  obtain ⟨width, b, holds, present, -⟩ := sizeHeader_iff.1 header
  exact MarkerFamily.le_maxSize holds present

/-! ## Headers in a given class -/

/-- The header of a size in a given class, which is empty if the family lacks the class. -/
def MarkerFamily.header (f : MarkerFamily) (width : SizeClass) (n : Nat) : Bytes :=
  match f.marker? width with
  | some marker => marker :: Bytes.bigEndian width.prefixWidth n
  | none => []

/-- Whether a category has a marker of a class: the sizes of structures end at 16 bits. -/
def Category.Offers (c : Category) (width : SizeClass) : Prop :=
  c = .struct → width ≠ .size32

theorem Category.offers_of_ne {c : Category} (h : c ≠ .struct) (width : SizeClass) :
    c.Offers width :=
  fun hc => absurd hc h

theorem Category.offers_of_marker? {c : Category} {width : SizeClass} {b : UInt8}
    (present : c.family.marker? width = some b) : c.Offers width := by
  intro hc hw
  subst hc hw
  cases present

theorem Category.Offers.exists_marker {c : Category} {width : SizeClass} (h : c.Offers width) :
    ∃ b, c.family.marker? width = some b := by
  cases width with
  | tiny | size8 | size16 => exact ⟨_, rfl⟩
  | size32 =>
    cases c with
    | string | list | dict => exact ⟨_, rfl⟩
    | struct => exact absurd rfl (h rfl)

theorem Category.header_eq_cons {c : Category} {width : SizeClass} {n : Nat}
    (offers : c.Offers width) (holds : width.Holds n) :
    ∃ b, Marker.ofByte b = c.marker width ∧
      c.family.header width n = b :: Bytes.bigEndian width.prefixWidth n := by
  obtain ⟨b, present⟩ := offers.exists_marker
  refine ⟨b, Category.ofByte_of_marker? holds present, ?_⟩
  rw [MarkerFamily.header, present]

theorem SizeHeader.exists_width {c : Category} {n : Nat} {h : Bytes}
    (header : SizeHeader c.family n h) :
    ∃ width, c.Offers width ∧ width.Holds n ∧ c.family.header width n = h := by
  obtain ⟨width, b, holds, present, rfl⟩ := sizeHeader_iff.1 header
  refine ⟨width, Category.offers_of_marker? present, holds, ?_⟩
  rw [MarkerFamily.header, present]

end PackStream
