import PackStream.Proofs.Datum.Offence
import PackStream.Proofs.Encoding.Integer

/-!
# Integers of all types come to the same

An integer can become a value from a word of 64 or 128 bits, with or without a sign, from
application data of any integer type, or by being written at once. All of these ways agree: the
integer is taken as it is if it lies within 64 bits with a sign, and is named in the same error
otherwise.

Main statement: `Value.narrows_by_every_way`.
-/

set_option autoImplicit false

namespace PackStream

/-! ## Writing an unsigned integer -/

namespace Encoder

/-- An unsigned integer that fits is written as a value is, and so, on a steady sink with room for
it, in the bytes of the value. -/
theorem encodeUInt_of_fits {n : UInt64} (fits : (n.toNat : Int) ≤ Value.maxInt) :
    ∃ (i : Int64) (bytes : Bytes), i.toInt = n.toNat ∧
      (Value.integer i).toBytes .standard = .ok bytes ∧
      (∀ {σ : Type} [Writer σ] (e : Encoder σ), encodeUInt n e = encodeValue (.integer i) e) ∧
      ∀ e : Encoder, e.sink.Steady → e.sink.Fits bytes.length →
        ∃ d : Encoder, encodeUInt n e = .ok () d ∧
          d.sink.bytes.toList = e.sink.bytes.toList ++ bytes ∧
          d.written = e.written + bytes.length := by
  have same : (Int64.ofInt n.toNat).toInt = n.toNat := by
    unfold Value.maxInt at fits
    exact Int64.toInt_ofInt_of_le (by omega) (by omega)
  have encoded := (Value.integer (Int64.ofInt n.toNat)).toBytes_eq_reference .standard
  have accepted {σ : Type} [Writer σ] (e : Encoder σ) :
      encodeUInt n e = encodeInt (Int64.ofInt n.toNat) e := by
    rw [encodeUInt, if_pos fits]
  refine ⟨Int64.ofInt n.toNat, _, same, encoded, fun e => accepted e, ?_⟩
  intro e steady room
  rw [accepted]
  exact encodeInt_of_fits steady room

/-- An unsigned integer that does not fit is refused before anything is written. -/
theorem encodeUInt_of_not_fits {σ : Type} [Writer σ] {n : UInt64}
    (beyond : Value.maxInt < (n.toNat : Int)) (e : Encoder σ) :
    encodeUInt n e = .error (.integerOverflow n.toNat Value.maxInt) e := by
  rw [encodeUInt, if_neg (Int.not_le.2 beyond)]
  rfl

end Encoder

/-! ## All ways agree -/

/-- Let a word, or application data of an integer type, stand for an integer. To make it a value
comes to the same for every type: it yields the integer within 64 bits with a sign, and otherwise
the same error. No data of a type that lies within these bits is refused. To write an unsigned word
at once does on any writer what writing that value does, which appends the bytes of the value to a
sink that takes them, or ends with that error and leaves the encoder as it was. -/
theorem Value.narrows_by_every_way (x : Int) :
    (∀ n : UInt64, n.toNat = x → Narrows x (ofUInt64 n)) ∧
    (∀ n : USize, n.toNat = x → Narrows x (ofUSize n)) ∧
    (∀ w : BitVec 128, w.toInt = x → Narrows x (ofInt128 w)) ∧
    (∀ w : BitVec 128, w.toNat = x → Narrows x (ofUInt128 w)) ∧
    (∀ type : IntType, type.Contains x →
      Narrows x (Datum.integer type x).toValue ∧
        (¬ (type = .unsigned .bits64 ∨ type.bits = .bits128) →
          ∃ i : Int64, i.toInt = x ∧ (Datum.integer type x).toValue = .ok (.integer i))) ∧
    ∀ n : UInt64, n.toNat = x →
      (x ≤ 0x7FFFFFFFFFFFFFFF → ∃ (i : Int64) (bytes : Bytes), i.toInt = x ∧
        (Value.integer i).toBytes .standard = .ok bytes ∧
        (∀ {σ : Type} [Writer σ] (e : Encoder σ),
          Encoder.encodeUInt n e = Encoder.encodeValue (.integer i) e) ∧
        ∀ e : Encoder, e.sink.Steady → e.sink.Fits bytes.length →
          ∃ d : Encoder, Encoder.encodeUInt n e = .ok () d ∧
            d.sink.bytes.toList = e.sink.bytes.toList ++ bytes ∧
            d.written = e.written + bytes.length) ∧
      (0x7FFFFFFFFFFFFFFF < x → ∀ {σ : Type} [Writer σ] (e : Encoder σ),
        Encoder.encodeUInt n e = .error (.integerOverflow x 0x7FFFFFFFFFFFFFFF) e) := by
  refine ⟨fun n => narrows_ofUInt64, fun n => narrows_ofUSize, fun w => narrows_ofInt128,
    fun w => narrows_ofUInt128, ?data, ?written⟩
  case data =>
    intro type contains
    have narrows : Narrows x (Datum.integer type x).toValue := by
      rw [Datum.toValue]
      exact Datum.narrows_integerValue contains
    refine ⟨narrows, ?_⟩
    intro narrow
    obtain ⟨lo, hi⟩ := Datum.fits_of_contains contains narrow
    exact narrows.ok ⟨lo, hi⟩
  case written =>
    intro n same
    subst same
    exact ⟨Encoder.encodeUInt_of_fits, fun beyond _ _ e => Encoder.encodeUInt_of_not_fits beyond e⟩

/-- The least integer above those that fit, the greatest of 128 bits without a sign, as a word and
as data, and the least and the greatest of types all of whose integers fit. -/
theorem Value.narrows_by_every_way_above :
    ofUInt64 0x8000000000000000 =
        .error (.integerOverflow 0x8000000000000000 0x7FFFFFFFFFFFFFFF) ∧
      ofUSize 255 = .ok (.integer 255) ∧
      ofInt128 (BitVec.ofInt 128 (-0x8000000000000001)) =
        .error (.integerOverflow (-0x8000000000000001) 0x7FFFFFFFFFFFFFFF) ∧
      ofUInt128 (BitVec.allOnes 128) =
        .error (.integerOverflow 0x7FFFFFFFFFFFFFFFFFFFFFFFFFFFFFFF 0x7FFFFFFFFFFFFFFF) ∧
      (Datum.integer (.unsigned .bits128) 0xFFFFFFFFFFFFFFFFFFFFFFFFFFFFFFFF).toValue =
        .error (.integerOverflow 0x7FFFFFFFFFFFFFFFFFFFFFFFFFFFFFFF 0x7FFFFFFFFFFFFFFF) ∧
      (Datum.integer (.signed .bits8) (-128)).toValue = .ok (.integer (-128)) ∧
      ∀ e : Encoder, Encoder.encodeUInt 0x8000000000000000 e =
        .error (.integerOverflow 0x8000000000000000 0x7FFFFFFFFFFFFFFF) e := by
  obtain ⟨u64, -, -, -, -, uint⟩ := narrows_by_every_way 0x8000000000000000
  obtain ⟨-, usize, -⟩ := narrows_by_every_way 255
  obtain ⟨-, -, i128, -⟩ := narrows_by_every_way (-0x8000000000000001)
  obtain ⟨-, -, -, u128, wide, -⟩ := narrows_by_every_way 0xFFFFFFFFFFFFFFFFFFFFFFFFFFFFFFFF
  obtain ⟨-, -, -, -, data, -⟩ := narrows_by_every_way (-128)
  refine ⟨?_, ?_, ?_, ?_, ?_, ?_, ?_⟩
  · exact (u64 0x8000000000000000 rfl).error (.inr (by decide))
  · have byte : ((255 : USize).toNat : Int) = 255 := by simp
    exact (usize 255 byte).eq_ok (by decide)
  · exact (i128 _ (by decide)).error (.inl (by decide))
  · exact (u128 _ (by decide)).error (.inr (by decide))
  · exact (wide (.unsigned .bits128) (by decide)).1.error (.inr (by decide))
  · exact (data (.signed .bits8) (by decide)).1.eq_ok (by decide)
  · intro e
    exact (uint 0x8000000000000000 rfl).2 (by decide) e

end PackStream
