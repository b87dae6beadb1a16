import PackStream.Proofs.Datum.Closure
import PackStream.Proofs.Encoding.Form
import PackStream.Proofs.Encoding.Offence
import PackStream.Proofs.Decoding.Acceptance

/-!
# Writing application data

Data is converted before anything of it is written. A conversion that fails therefore leaves the
sink alone, and one that succeeds comes to a value without structures, which is then written like
any other. What can still fail is the sink, or a string, a list or a dictionary that is too large
for every header; so the kind of an error tells whether the sink has been touched.

Main statement: `Datum.writeTo_settles`.
-/

set_option autoImplicit false

namespace PackStream

/-! ## What writing fails with -/

/-- What the writing of a value without structures fails with, where nesting is not limited: its
sink fails, or one of its parts is larger than 32 bits can say. -/
inductive EncodeError.IsOfWriting : EncodeError → Prop
  | sinkFailure (reason : String) : IsOfWriting (.sinkFailure reason)
  | tooLarge {category : String} {size : Nat} (sized : category ∈ ["string", "list", "dict"])
      (large : 0xFFFFFFFF < size) : IsOfWriting (.lengthOverflow category size 0xFFFFFFFF)

/-- What a conversion fails with. -/
inductive EncodeError.IsOfConversion : EncodeError → Prop
  | unsupportedType (what : String) : IsOfConversion (.unsupportedType what)
  | integerOverflow (value max : Int) : IsOfConversion (.integerOverflow value max)
  | custom (text : String) : IsOfConversion (.custom text)

theorem EncodeError.IsOfWriting.not_isOfConversion {error : EncodeError} (h : error.IsOfWriting) :
    ¬ error.IsOfConversion := by
  cases h <;> nofun

theorem Encoder.isOfWriting_of_encode {σ : Type} [Writer σ] {v : Value} {e : Encoder σ}
    {error : EncodeError} (free : v.StructFree) (unlimited : e.options.depthLimit = none)
    (h : (encode v e).outcome = .error error) : error.IsOfWriting := by
  obtain ⟨reason, rfl⟩ | ⟨node, mem, offends⟩ := encode_error_cases h
  · exact .sinkFailure reason
  · rw [unlimited] at offends
    cases offends with
    | tooDeep limited => cases limited
    | tooLarge large =>
      have other := (Value.structFree_iff e.depth v).1 free node mem
      obtain ⟨category, size, depth⟩ := node
      cases category with
      | string => exact .tooLarge (.head _) large
      | list => exact .tooLarge (.tail _ (.head _)) large
      | dict => exact .tooLarge (.tail _ (.tail _ (.head _))) large
      | struct => exact absurd rfl other

/-! ## Conversion, then writing -/

namespace Datum

theorem writeTo_of_ok {σ : Type} [Writer σ] (sink : σ) {d : Datum} {v : Value}
    (converted : d.toValue = .ok v) : d.writeTo sink = Encoder.encode v { sink } := by
  rw [writeTo, converted]

theorem writeTo_of_error {σ : Type} [Writer σ] (sink : σ) {d : Datum} {error : EncodeError}
    (refused : d.toValue = .error error) : d.writeTo sink = .error error { sink } := by
  rw [writeTo, refused]

/-- A byte string that data is written to is read as the value that the data was converted to. -/
theorem ofBytes_of_toBytes {d : Datum} {bs : Bytes} (written : d.toBytes = .ok bs) :
    ∃ v, d.toValue = .ok v ∧ Value.ofBytes bs = .ok v := by
  cases converted : d.toValue with
  | error error =>
    rw [toBytes, writeTo_of_error _ converted] at written
    cases written
  | ok v =>
    rw [toBytes, writeTo_of_ok _ converted] at written
    have encoded : v.toBytes {} = .ok bs := written
    have form := wire_of_toBytes ⟨rfl, rfl⟩ (ordered_toValue converted) encoded
    exact ⟨v, rfl, Reader.ofBytes_eq_ok_iff.2 form⟩

/-- Data that has no value is refused with the error of the conversion, and nothing else happens.
Data that has one is written as that value is by a new encoder; the value has no structures in it,
and only the sink or a part that is too large can stop the writing. So where an error of the
conversion is returned, the sink is as it was. And what is written as a byte string is read again
as the value of the data. -/
theorem writeTo_settles {σ : Type} [Writer σ] (sink : σ) (d : Datum) :
    (∀ error, d.toValue = .error error → d.writeTo sink = .error error { sink }) ∧
    (∀ v, d.toValue = .ok v →
      v.StructFree ∧ d.writeTo sink = Encoder.encode v { sink } ∧
        ∀ error, (d.writeTo sink).outcome = .error error → error.IsOfWriting) ∧
    (∀ error, (d.writeTo sink).outcome = .error error → error.IsOfConversion →
      (d.writeTo sink).state = { sink }) ∧
    ∀ bs, d.toBytes = .ok bs → ∃ v, d.toValue = .ok v ∧ Value.ofBytes bs = .ok v := by
  have writing (v : Value) (converted : d.toValue = .ok v) (error : EncodeError)
      (fails : (d.writeTo sink).outcome = .error error) : error.IsOfWriting := by
    rw [writeTo_of_ok sink converted] at fails
    exact Encoder.isOfWriting_of_encode (structFree_toValue converted) rfl fails
  refine ⟨?_, ?_, ?_, ?_⟩
  · exact fun error => writeTo_of_error sink
  · intro v converted
    exact ⟨structFree_toValue converted, writeTo_of_ok sink converted, writing v converted⟩
  · intro error fails conversion
    cases converted : d.toValue with
    | ok v => exact absurd conversion (writing v converted error fails).not_isOfConversion
    | error error' =>
      rw [writeTo_of_error sink converted]
      rfl
  · exact fun bs => ofBytes_of_toBytes

/-- Nothing is written of an entry that precedes one without a value. -/
example :
    let d : Datum := .map [.entry (.text "a") .unit, .entry (.text "b") (.bytes [])]
    d.writeTo ({} : Sink) = .error (.unsupportedType "byte array") { sink := {} } := rfl

end Datum

end PackStream
