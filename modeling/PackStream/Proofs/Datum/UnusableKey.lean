import PackStream.Proofs.Datum.Denotation
import PackStream.Proofs.Datum.Recovery

/-!
# Data that cannot be a key

Data that is no text is refused as a key, whether it comes alone or with a value, and the collector
is left as it was. Wrappers make no difference: what counts is the data inside all of them. It is
refused by its category, but for integers of 128 bits, which are refused by the name of their type.

Main statement: `DictCollector.refuses_unusable_key`. The exception is the subject of
`DictCollector.not_forall_refused_by_category`.
-/

set_option autoImplicit false

namespace PackStream

namespace Datum

/-- What is left of data when all wrappers around it are taken off. -/
def unwrapped : Datum → Datum
  | wrapped content => content.unwrapped
  | d => d

theorem keyText_unwrapped (d : Datum) : d.unwrapped.keyText = d.keyText := by
  fun_induction unwrapped d with
  | case1 content ih => exact ih
  | case2 d bare => rfl

theorem isText_unwrapped_iff {d : Datum} {s : String} : d.unwrapped.IsText s ↔ d.IsText s := by
  rw [← keyText_eq_ok_iff, ← keyText_eq_ok_iff, keyText_unwrapped]

theorem unwrapped_ne_wrapped (d content : Datum) : d.unwrapped ≠ .wrapped content := by
  fun_induction unwrapped d with
  | case1 inner ih => exact ih
  | case2 d bare => exact bare content

end Datum

namespace DictCollector

/-- Data that is no text is refused as a key by every collector, alone and with a value, and leaves
the collector as it was. The error is an unsupported type that names the category of the data
inside all wrappers. Only integers of 128 bits are refused otherwise, by the name of their type, and
data that fails to describe itself fails with its own reason. -/
theorem refuses_unusable_key {k : Datum} (noText : ∀ s, ¬ k.IsText s) (c : DictCollector) :
    ∃ error, step (.key k) c = .error error c ∧ (∀ d, step (.entry k d) c = .error error c) ∧
      ((∃ category, k.unwrapped.OfCategory category ∧ ¬ k.unwrapped.IsWideInteger ∧
          error = .unsupportedType s!"map key of type {category}") ∨
        (∃ type x, k.unwrapped = .integer type x ∧ type.bits = .bits128 ∧
          error = .custom s!"{type.name} is not supported") ∨
        ∃ reason, k.unwrapped = .failure reason ∧ error = .custom reason) := by
  obtain ⟨s, text⟩ | ⟨error, refused⟩ := k.unwrapped.isText_or_refusedAsKey
  · exact absurd (Datum.isText_unwrapped_iff.1 text) (noText s)
  · have given : k.keyText = .error error := k.keyText_unwrapped.symm.trans refused.keyText_eq
    obtain ⟨alone, entry⟩ := step_of_keyText_error given c
    refine ⟨error, alone, entry, ?_⟩
    generalize same : k.unwrapped = bare at refused ⊢
    cases refused with
    | @wrapped content => exact absurd same (k.unwrapped_ne_wrapped content)
    | failure reason => exact .inr (.inr ⟨reason, rfl, rfl⟩)
    | signed128 x => exact .inr (.inl ⟨_, x, rfl, rfl, rfl⟩)
    | unsigned128 x => exact .inr (.inl ⟨_, x, rfl, rfl, rfl⟩)
    | category own narrow => exact .inl ⟨_, own, narrow, rfl⟩

/-- A tagged tuple in two wrappers, where another key waits. -/
theorem refuses_unusable_key_wrappedCase :
    let k : Datum := .wrapped (.wrapped (.sequence (.tagged "Rect") [.unit]))
    let c : DictCollector :=
      { dict := Std.TreeMap.empty.insert "a" (.integer 1), pending := some "b" }
    (∀ s, ¬ k.IsText s) ∧
      step (.entry k .unit) c = .error (.unsupportedType "map key of type enum variant") c := by
  intro k c
  have noText : ∀ s, ¬ k.IsText s := by
    intro s text
    cases Datum.isText_unwrapped_iff.2 text
  refine ⟨noText, ?_⟩
  obtain ⟨error, -, entry, named | wide | failing⟩ := refuses_unusable_key noText c
  · obtain ⟨category, of, -, rfl⟩ := named
    rw [entry]
    cases of with
    | sequence untagged => cases untagged
    | taggedSequence => rfl
  · obtain ⟨type, x, same, -⟩ := wide
    cases same
  · obtain ⟨reason, same, -⟩ := failing
    cases same

/-- So not all data is refused by its category: an integer of 128 bits is not, though it is an
integer like those of the other types. -/
theorem not_forall_refused_by_category :
    ¬ ∀ (past : List (MapStep Datum)) (k d : Datum) (category : String),
        (∀ type x, k.unwrapped = .integer type x → type.Contains x) →
        k.unwrapped.OfCategory category →
        let c : DictCollector := CollectorKind.map.collector.after ofMap past
        step (.entry k d) c = .error (.unsupportedType s!"map key of type {category}") c := by
  intro all
  have contained : ∀ type x, (Datum.integer (.signed .bits128) 7).unwrapped = .integer type x →
      type.Contains x := by
    rintro _ _ ⟨⟩
    exact ⟨by decide, by decide⟩
  have named := all [] (.integer (.signed .bits128) 7) .unit "integer" contained (.integer _ _)
  cases named

end DictCollector

end PackStream
