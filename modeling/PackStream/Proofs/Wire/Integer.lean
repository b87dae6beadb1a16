import PackStream.Decoding.Reader
import PackStream.Proofs.Wire.Header

/-!
# Integers on the wire

An integer is a marker byte of its own or a marker followed by its two's complement form in one,
two, four or eight bytes. `IntegerForm i w` says that the bytes `w` are one of the forms of `i`:
any width will do that holds it, not only the narrowest.

Main statements: `integerForm_iff`, the forms are the widths that hold the integer, and
`eq_ofTwosComplement_iff`, reading a payload inverts writing it.
-/

set_option autoImplicit false

namespace PackStream

/-- An integer in two's complement, most significant byte first. -/
def twosComplement (width : Nat) (i : Int) : Bytes :=
  Bytes.bigEndian width (i % Bytes.modulus width).toNat

@[simp] theorem length_twosComplement (width : Nat) (i : Int) :
    (twosComplement width i).length = width :=
  Bytes.length_bigEndian _ _

/-- The number that a two's complement form is congruent to. -/
theorem ofBigEndian_twosComplement (width : Nat) (i : Int) :
    (Bytes.ofBigEndian (twosComplement width i) : Int) = i % Bytes.modulus width := by
  have pos : (0 : Int) < Bytes.modulus width := Int.natCast_pos.2 (Bytes.modulus_pos width)
  have nonneg := Int.emod_nonneg i (Int.ne_of_gt pos)
  have lt := Int.emod_lt_of_pos i pos
  rw [twosComplement, Bytes.ofBigEndian_bigEndian, Int.natCast_emod, Int.toNat_of_nonneg nonneg]
  exact Int.emod_eq_of_lt nonneg lt

/-- Bytes are the two's complement form of every integer congruent to them. -/
theorem twosComplement_eq_of_emod {bs : Bytes} {i : Int}
    (h : i % Bytes.modulus bs.length = (Bytes.ofBigEndian bs : Int)) :
    twosComplement bs.length i = bs := by
  rw [twosComplement, h, Int.toNat_natCast, Bytes.bigEndian_ofBigEndian]

theorem toUInt64_eq_toInt_emod (i : Int64) :
    (i.toUInt64.toNat : Int) = i.toInt % Bytes.modulus 8 := by
  have congruent : i.toInt = (i.toUInt64.toNat : Int).bmod (Bytes.modulus 8) :=
    BitVec.toInt_eq_toNat_bmod _
  have lt : (i.toUInt64.toNat : Int) < Bytes.modulus 8 := Int.ofNat_lt.2 i.toUInt64.toNat_lt
  rw [congruent]
  exact (Int.bmod_emod.trans (Int.emod_eq_of_lt (Int.natCast_nonneg _) lt)).symm

/-- The low bytes of a 64-bit word are the two's complement form in that many bytes. -/
theorem bigEndian_toUInt64 {width : Nat} (h : width ≤ 8) (i : Int64) :
    Bytes.bigEndian width i.toUInt64.toNat = twosComplement width i.toInt := by
  have low : i.toUInt64.toNat % Bytes.modulus width = (i.toInt % Bytes.modulus width).toNat := by
    have divides : (Bytes.modulus width : Int) ∣ Bytes.modulus 8 := by
      refine Int.natCast_dvd_natCast.2 ⟨Bytes.modulus (8 - width), ?_⟩
      rw [← Bytes.modulus_add, Nat.add_sub_of_le h]
    rw [← Int.emod_emod_of_dvd i.toInt divides, ← toUInt64_eq_toInt_emod, ← Int.natCast_emod,
      Int.toNat_natCast]
  rw [twosComplement, ← low, Bytes.bigEndian_mod _ _ _ (Nat.le_refl _)]

/-! ## Widths -/

namespace IntWidth

/-- Whether an integer can be written in a width. -/
def Holds : IntWidth → Int → Prop
  | .tiny, i => -16 ≤ i ∧ i ≤ 127
  | .int8, i => -0x80 ≤ i ∧ i < 0x80
  | .int16, i => -0x8000 ≤ i ∧ i < 0x8000
  | .int32, i => -0x80000000 ≤ i ∧ i < 0x80000000
  | .int64, i => -0x8000000000000000 ≤ i ∧ i < 0x8000000000000000

/-- Whether a width is the narrowest in which an integer can be written. -/
def Narrowest : IntWidth → Int → Prop
  | .tiny, i => -16 ≤ i ∧ i ≤ 127
  | .int8, i => -0x80 ≤ i ∧ i < -16
  | .int16, i => -0x8000 ≤ i ∧ i < -0x80 ∨ 0x80 ≤ i ∧ i < 0x8000
  | .int32, i => -0x80000000 ≤ i ∧ i < -0x8000 ∨ 0x8000 ≤ i ∧ i < 0x80000000
  | .int64, i => -0x8000000000000000 ≤ i ∧ i < -0x80000000 ∨ 0x80000000 ≤ i ∧ i < 0x8000000000000000

theorem Narrowest.holds {width : IntWidth} {i : Int} (h : width.Narrowest i) : width.Holds i := by
  cases width <;> simp only [Narrowest, Holds] at h ⊢ <;> omega

/-- The width that the writer chooses is the narrowest. -/
theorem narrowest_ofInt (i : Int64) : (ofInt i.toInt).Narrowest i.toInt := by
  have lo := i.le_toInt
  have hi := i.toInt_lt
  unfold ofInt tinyMin tinyMax
  generalize i.toInt = x at lo hi ⊢
  by_cases tiny : -16 ≤ x ∧ x ≤ 127
  · rw [if_pos tiny]
    exact tiny
  rw [if_neg tiny]
  by_cases byte : -0x80 ≤ x ∧ x < 0x80
  · rw [if_pos byte]
    show _ ∧ _
    omega
  rw [if_neg byte]
  by_cases word : -0x8000 ≤ x ∧ x < 0x8000
  · rw [if_pos word]
    show _ ∨ _
    omega
  rw [if_neg word]
  by_cases long : -0x80000000 ≤ x ∧ x < 0x80000000
  · rw [if_pos long]
    show _ ∨ _
    omega
  · rw [if_neg long]
    show _ ∨ _
    omega

theorem Narrowest.unique {width other : IntWidth} {i : Int} (h : width.Narrowest i)
    (ho : other.Narrowest i) : width = other := by
  cases width <;> cases other <;> simp only [Narrowest] at h ho <;> first | rfl | omega

theorem Narrowest.payloadWidth_le {width other : IntWidth} {i : Int} (h : width.Narrowest i)
    (ho : other.Holds i) : width.payloadWidth ≤ other.payloadWidth := by
  cases width <;> cases other <;> simp only [Narrowest, Holds, payloadWidth] at * <;> omega

theorem payloadWidth_inj {width other : IntWidth}
    (h : width.payloadWidth = other.payloadWidth) : width = other := by
  cases width <;> cases other <;> first | rfl | cases h

/-- The bytes of an integer in a given width. -/
def bytes (width : IntWidth) (i : Int) : Bytes :=
  match width.marker? with
  | none => twosComplement 1 i
  | some marker => marker :: twosComplement width.payloadWidth i

@[simp] theorem length_bytes (width : IntWidth) (i : Int) :
    (width.bytes i).length = 1 + width.payloadWidth := by
  cases width <;> simp [bytes, marker?, payloadWidth]

theorem ofByte_eq_int_iff {width : IntWidth} {b : UInt8} :
    Marker.ofByte b = .int width ↔ width.marker? = some b :=
  Marker.ofByte_eq_iff (by simp)

end IntWidth

/-! ## Forms -/

/-- The forms of an integer: a marker byte read as a signed number, or one of four markers with
the two's complement form of the integer in as many bytes. -/
inductive IntegerForm : Int64 → Bytes → Prop
  | tiny {b : UInt8} (h : b ≤ 0x7F ∨ 0xF0 ≤ b) : IntegerForm b.toInt8.toInt64 [b]
  | int8 {i : Int64} (h : -0x80 ≤ i.toInt ∧ i.toInt < 0x80) :
      IntegerForm i (0xC8 :: twosComplement 1 i.toInt)
  | int16 {i : Int64} (h : -0x8000 ≤ i.toInt ∧ i.toInt < 0x8000) :
      IntegerForm i (0xC9 :: twosComplement 2 i.toInt)
  | int32 {i : Int64} (h : -0x80000000 ≤ i.toInt ∧ i.toInt < 0x80000000) :
      IntegerForm i (0xCA :: twosComplement 4 i.toInt)
  | int64 {i : Int64} : IntegerForm i (0xCB :: twosComplement 8 i.toInt)

theorem ofByte_eq_tinyInt_iff {b : UInt8} {i : Int8} :
    Marker.ofByte b = .tinyInt i ↔ (b ≤ 0x7F ∨ 0xF0 ≤ b) ∧ i = b.toInt8 := by
  have range : ∀ b : UInt8, (b ≤ 0x7F ∨ 0xF0 ≤ b) ↔ -16 ≤ b.toInt8 := by decide +kernel
  rw [Marker.ofByte_eq_iff (by simp), Marker.byte?, range b]
  refine ⟨?_, ?_⟩
  · intro h
    split at h
    · rename_i hi
      cases h
      simpa using hi
    · cases h
  · intro given
    rcases given with ⟨h, rfl⟩
    rw [if_pos h]
    simp

/-- A tiny marker is the one-byte form of the integer that it is read as. -/
theorem twosComplement_tiny {b : UInt8} (h : b ≤ 0x7F ∨ 0xF0 ≤ b) :
    IntWidth.tiny.Holds b.toInt8.toInt ∧ twosComplement 1 b.toInt8.toInt = [b] := by
  have all : ∀ b : UInt8, b ≤ 0x7F ∨ 0xF0 ≤ b →
      (-16 ≤ b.toInt8.toInt ∧ b.toInt8.toInt ≤ 127) ∧ twosComplement 1 b.toInt8.toInt = [b] := by
    decide +kernel
  exact all b h

/-- The one-byte form of a tiny integer is a marker that is read as the integer. -/
theorem exists_tiny_of_holds {i : Int} (h : IntWidth.tiny.Holds i) :
    ∃ b : UInt8, (b ≤ 0x7F ∨ 0xF0 ≤ b) ∧ b.toInt8.toInt = i ∧ twosComplement 1 i = [b] := by
  have all : ∀ n : Fin 144, ∃ b ∈ twosComplement 1 (n - 16 : Int), (b ≤ 0x7F ∨ 0xF0 ≤ b) ∧
      b.toInt8.toInt = (n - 16 : Int) ∧ twosComplement 1 (n - 16 : Int) = [b] := by
    decide +kernel
  obtain ⟨lo, hi⟩ := h
  obtain ⟨b, -, range, read, form⟩ := all ⟨(i + 16).toNat, by omega⟩
  have cast : ((i + 16).toNat : Int) - 16 = i := by omega
  simp only [cast] at read form
  exact ⟨b, range, read, form⟩

/-- The forms of an integer are the widths that hold it. -/
theorem integerForm_iff {i : Int64} {w : Bytes} :
    IntegerForm i w ↔ ∃ width : IntWidth, width.Holds i.toInt ∧ w = width.bytes i.toInt := by
  refine ⟨?_, ?_⟩
  · intro form
    cases form with
    | tiny h =>
      obtain ⟨holds, form⟩ := twosComplement_tiny h
      rw [← Int8.toInt_toInt64] at holds form
      exact ⟨.tiny, holds, form.symm⟩
    | int8 h => exact ⟨.int8, h, rfl⟩
    | int16 h => exact ⟨.int16, h, rfl⟩
    | int32 h => exact ⟨.int32, h, rfl⟩
    | int64 => exact ⟨.int64, ⟨i.le_toInt, i.toInt_lt⟩, rfl⟩
  · intro given
    rcases given with ⟨width, holds, rfl⟩
    cases width with
    | tiny =>
      obtain ⟨b, range, read, form⟩ := exists_tiny_of_holds holds
      have hi : i = b.toInt8.toInt64 := by
        apply Int64.toInt_inj.1
        rw [Int8.toInt_toInt64, read]
      show IntegerForm i (twosComplement 1 i.toInt)
      rw [form, hi]
      exact .tiny range
    | int8 => exact .int8 holds
    | int16 => exact .int16 holds
    | int32 => exact .int32 holds
    | int64 => exact .int64

/-- The form that is written is the shortest, and no other is as short. -/
theorem IntegerForm.eq_or_length_lt {i : Int64} {w : Bytes} (form : IntegerForm i w) :
    w = (IntWidth.ofInt i.toInt).bytes i.toInt ∨
      ((IntWidth.ofInt i.toInt).bytes i.toInt).length < w.length := by
  obtain ⟨width, holds, rfl⟩ := integerForm_iff.1 form
  have le := (IntWidth.narrowest_ofInt i).payloadWidth_le holds
  by_cases same : width.payloadWidth = (IntWidth.ofInt i.toInt).payloadWidth
  · rw [IntWidth.payloadWidth_inj same]
    exact .inl rfl
  · right
    rw [IntWidth.length_bytes, IntWidth.length_bytes]
    omega

/-- The bytes of an integer are the last bytes of its 64-bit word, after the marker if there is
one. -/
theorem IntWidth.bytes_eq_drop (width : IntWidth) (i : Int64) :
    width.bytes i.toInt = match width.marker? with
      | none => (Bytes.bigEndian 8 i.toUInt64.toNat).drop 7
      | some marker =>
        marker :: (Bytes.bigEndian 8 i.toUInt64.toNat).drop (8 - width.payloadWidth) := by
  have low (k n : Nat) (h : k + n = 8) :
      (Bytes.bigEndian 8 i.toUInt64.toNat).drop k = twosComplement n i.toInt := by
    rw [← h, Bytes.drop_bigEndian, bigEndian_toUInt64 (by omega)]
  cases width with
  | tiny => exact (low 7 1 rfl).symm
  | int8 => exact congrArg _ (low 7 1 rfl).symm
  | int16 => exact congrArg _ (low 6 2 rfl).symm
  | int32 => exact congrArg _ (low 4 4 rfl).symm
  | int64 => exact congrArg _ (low 0 8 rfl).symm

/-! ## Reading a payload -/

theorem ofTwosComplement_twosComplement {width : Nat} {i : Int64}
    (lo : -(Bytes.modulus width : Int) ≤ i.toInt * 2)
    (hi : i.toInt * 2 < (Bytes.modulus width : Int)) :
    Reader.ofTwosComplement (twosComplement width i.toInt) = i := by
  rw [Reader.ofTwosComplement, ofBigEndian_twosComplement, length_twosComplement,
    Int.emod_bmod, Int.bmod_eq_of_le_mul_two lo hi, Int64.ofInt_toInt]

theorem toInt_ofTwosComplement {bs : Bytes} (h : Bytes.modulus bs.length ≤ Bytes.modulus 8) :
    (Reader.ofTwosComplement bs).toInt =
      (Bytes.ofBigEndian bs : Int).bmod (Bytes.modulus bs.length) := by
  have pos := Bytes.modulus_pos bs.length
  have lo := Int.le_bmod (x := Bytes.ofBigEndian bs) pos
  have hi := Int.bmod_lt (x := Bytes.ofBigEndian bs) pos
  have top : Bytes.modulus 8 = 0x10000000000000000 := rfl
  exact Int64.toInt_ofInt_of_le (by omega) (by omega)

theorem twosComplement_ofTwosComplement {bs : Bytes}
    (h : Bytes.modulus bs.length ≤ Bytes.modulus 8) :
    twosComplement bs.length (Reader.ofTwosComplement bs).toInt = bs := by
  apply twosComplement_eq_of_emod
  have lt := Int.ofNat_lt.2 (Bytes.ofBigEndian_lt bs)
  rw [toInt_ofTwosComplement h, Int.bmod_emod]
  exact Int.emod_eq_of_lt (Int.natCast_nonneg _) lt

/-- Reading a payload inverts writing it, in every width but the one without payload. -/
theorem eq_ofTwosComplement_iff {width : IntWidth} (h : width ≠ .tiny) {i : Int64} {bs : Bytes} :
    bs.length = width.payloadWidth ∧ i = Reader.ofTwosComplement bs ↔
      width.Holds i.toInt ∧ bs = twosComplement width.payloadWidth i.toInt := by
  refine ⟨?_, ?_⟩
  · intro given
    rcases given with ⟨len, rfl⟩
    have bound : Bytes.modulus bs.length ≤ Bytes.modulus 8 := by
      rw [len]
      cases width <;> decide
    refine ⟨?_, by rw [← len, twosComplement_ofTwosComplement bound]⟩
    have pos := Bytes.modulus_pos bs.length
    have lo := Int.le_bmod (x := Bytes.ofBigEndian bs) pos
    have hi := Int.bmod_lt (x := Bytes.ofBigEndian bs) pos
    rw [toInt_ofTwosComplement bound]
    cases width with
    | tiny => exact absurd rfl h
    | int8 | int16 | int32 | int64 =>
      simp only [len, IntWidth.payloadWidth, Bytes.modulus] at lo hi
      simp only [len, IntWidth.payloadWidth, Bytes.modulus, IntWidth.Holds]
      omega
  · intro given
    rcases given with ⟨holds, rfl⟩
    refine ⟨length_twosComplement _ _, (ofTwosComplement_twosComplement ?_ ?_).symm⟩
    all_goals
      cases width with
      | tiny => exact absurd rfl h
      | int8 | int16 | int32 | int64 =>
        obtain ⟨lo, hi⟩ := holds
        simp only [IntWidth.payloadWidth, Bytes.modulus]
        omega

end PackStream
