/-!
# Byte strings and big-endian words

Byte strings are lists of bytes. A number is written in a fixed number of bytes with the most
significant byte first: `bigEndian width n` keeps the low `8 * width` bits of `n`, and
`ofBigEndian` reads such a word back.

Main statements: `ofBigEndian_bigEndian` (writing then reading keeps the number modulo
`modulus width`) and `bigEndian_ofBigEndian` (reading then writing keeps every byte).
-/

set_option autoImplicit false

namespace PackStream

/-- A byte string. -/
abbrev Bytes := List UInt8

namespace Bytes

/-- Whether a byte string has at least `n` bytes, looking at no more than `n` of them. -/
def hasAtLeast : Nat → Bytes → Bool
  | 0, _ => true
  | _ + 1, [] => false
  | n + 1, _ :: bs => hasAtLeast n bs

@[simp] theorem hasAtLeast_iff {n : Nat} {bs : Bytes} : hasAtLeast n bs = true ↔ n ≤ bs.length := by
  fun_induction hasAtLeast n bs <;> simp_all

/-- How many numbers a word of `width` bytes tells apart. -/
def modulus : (width : Nat) → Nat
  | 0 => 1
  | width + 1 => modulus width * 256

theorem modulus_pos (width : Nat) : 0 < modulus width := by
  induction width with
  | zero => exact Nat.one_pos
  | succ width ih => exact Nat.mul_pos ih (by decide)

theorem modulus_add (m n : Nat) : modulus (m + n) = modulus m * modulus n := by
  induction n with
  | zero => exact (Nat.mul_one _).symm
  | succ n ih => rw [← Nat.add_assoc, modulus, modulus, ih, Nat.mul_assoc]

/-- The low `8 * width` bits of `n`, most significant byte first. -/
def bigEndian : (width : Nat) → (n : Nat) → Bytes
  | 0, _ => []
  | width + 1, n => UInt8.ofNat (n / modulus width) :: bigEndian width n

/-- The number whose digits in base 256 are the given bytes, most significant first. -/
def ofBigEndian (bs : Bytes) : Nat :=
  bs.foldl (fun n b => 256 * n + b.toNat) 0

@[simp] theorem length_bigEndian (width n : Nat) : (bigEndian width n).length = width := by
  induction width with
  | zero => rfl
  | succ width ih => simp [bigEndian, ih]

theorem bigEndian_one (n : Nat) : bigEndian 1 n = [UInt8.ofNat n] := by
  simp [bigEndian, modulus]

/-- The last bytes of a word are the word of the low bits. -/
theorem drop_bigEndian (k width n : Nat) :
    (bigEndian (k + width) n).drop k = bigEndian width n := by
  induction k with
  | zero => simp
  | succ k ih => simp [Nat.add_right_comm k 1 width, bigEndian, ih]

/-- Digits read after a leading number `n` add to it, shifted by their count. -/
theorem foldl_ofBigEndian (bs : Bytes) (n : Nat) :
    bs.foldl (fun n b => 256 * n + b.toNat) n = modulus bs.length * n + ofBigEndian bs := by
  induction bs generalizing n with
  | nil => simp [ofBigEndian, modulus]
  | cons b bs ih =>
    simp only [ofBigEndian, List.foldl_cons, List.length_cons, Nat.mul_zero, Nat.zero_add]
    rw [ih, ih b.toNat, modulus, Nat.mul_add, Nat.mul_assoc, Nat.add_assoc]

@[simp] theorem ofBigEndian_nil : ofBigEndian [] = 0 := rfl

theorem ofBigEndian_cons (b : UInt8) (bs : Bytes) :
    ofBigEndian (b :: bs) = modulus bs.length * b.toNat + ofBigEndian bs := by
  simp [ofBigEndian, foldl_ofBigEndian bs b.toNat]

theorem ofBigEndian_lt (bs : Bytes) : ofBigEndian bs < modulus bs.length := by
  induction bs with
  | nil => simp [modulus]
  | cons b bs ih =>
    have hb : b.toNat + 1 ≤ 256 := b.toNat_lt
    have h := Nat.mul_le_mul_left (modulus bs.length) hb
    rw [Nat.mul_add, Nat.mul_one] at h
    rw [ofBigEndian_cons, List.length_cons, modulus]
    omega

theorem ofBigEndian_bigEndian (width n : Nat) :
    ofBigEndian (bigEndian width n) = n % modulus width := by
  induction width with
  | zero => simp [bigEndian, modulus, Nat.mod_one]
  | succ width ih =>
    rw [bigEndian, ofBigEndian_cons, ih, length_bigEndian, UInt8.toNat_ofNat', modulus,
      Nat.mod_mul, Nat.add_comm]

/-- Numbers that agree on the low `8 * width` bits have the same word. -/
theorem bigEndian_mod (width n k : Nat) (h : width ≤ k) :
    bigEndian width (n % modulus k) = bigEndian width n := by
  induction width with
  | zero => rfl
  | succ width ih =>
    obtain ⟨j, rfl⟩ : ∃ j, k = width + (j + 1) := ⟨k - width - 1, by omega⟩
    rw [bigEndian, bigEndian, ih (by omega), modulus_add, Nat.mod_mul_right_div_self]
    congr 1
    apply UInt8.toNat_inj.1
    simp only [UInt8.toNat_ofNat']
    exact Nat.mod_mod_of_dvd _ ⟨modulus j, by rw [modulus, Nat.mul_comm]⟩

theorem bigEndian_ofBigEndian (bs : Bytes) : bigEndian bs.length (ofBigEndian bs) = bs := by
  induction bs with
  | nil => rfl
  | cons b bs ih =>
    have hlt := ofBigEndian_lt bs
    have hdiv : ofBigEndian (b :: bs) / modulus bs.length = b.toNat := by
      rw [ofBigEndian_cons, Nat.mul_add_div (by omega), Nat.div_eq_of_lt hlt, Nat.add_zero]
    have hmod : ofBigEndian (b :: bs) % modulus bs.length = ofBigEndian bs := by
      rw [ofBigEndian_cons, Nat.mul_add_mod, Nat.mod_eq_of_lt hlt]
    rw [List.length_cons, bigEndian, hdiv, ← bigEndian_mod bs.length _ _ (Nat.le_refl _), hmod, ih]
    simp

end Bytes

end PackStream
