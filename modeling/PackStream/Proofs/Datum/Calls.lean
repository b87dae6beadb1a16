import PackStream.Datum.Conversion
import PackStream.Proofs.Outcome

/-!
# Single calls on collectors

What a call needs to succeed, and what a collector holds afterwards. A call that fails leaves the
collector as it was, except that a value spends the key that waited for it.
-/

set_option autoImplicit false

namespace PackStream

namespace ListCollector

variable {c d : ListCollector} {converted : Except EncodeError Value}

theorem element_eq_ok_iff :
    element converted c = .ok () d ↔
      ∃ v, converted = .ok v ∧ d = { c with items := c.items.push v } := by
  cases converted with
  | ok v => simp [element, eq_comm]
  | error error => simp [element]

theorem element_eq_error_iff {error : EncodeError} :
    element converted c = .error error d ↔ converted = .error error ∧ d = c := by
  obtain ⟨tag, items⟩ := c
  cases converted with
  | ok v => simp [element]
  | error error => simp [element, eq_comm]

end ListCollector

namespace DictCollector

variable {c d : DictCollector} {error : EncodeError}

theorem key_eq_ok_iff {converted : Except EncodeError String} :
    key converted c = .ok () d ↔ ∃ k, converted = .ok k ∧ d = { c with pending := some k } := by
  cases converted with
  | ok k => simp [key, eq_comm]
  | error error => simp [key]

theorem key_eq_error_iff {converted : Except EncodeError String} :
    key converted c = .error error d ↔ converted = .error error ∧ d = c := by
  cases converted with
  | ok k => simp [key]
  | error error => simp [key, eq_comm]

theorem field_eq_ok_iff {name : String} {converted : Except EncodeError Value} :
    field name converted c = .ok () d ↔
      ∃ v, converted = .ok v ∧ d = { c with dict := c.dict.insert name v } := by
  cases converted with
  | ok v => simp [field, eq_comm]
  | error error => simp [field]

theorem field_eq_error_iff {name : String} {converted : Except EncodeError Value} :
    field name converted c = .error error d ↔ converted = .error error ∧ d = c := by
  cases converted with
  | ok v => simp [field]
  | error error => simp [field, eq_comm]

/-- A value is put in only under a key that waits for it. -/
theorem value_eq_ok_iff {converted : Except EncodeError Value} :
    value converted c = .ok () d ↔ ∃ k v, c.pending = some k ∧ converted = .ok v ∧
      d = { c with dict := c.dict.insert k v, pending := none } := by
  obtain ⟨tag, dict, _ | k⟩ := c
  · simp [value]
  · simp [value, field_eq_ok_iff]

/-- After a failed value no key waits, and nothing else has changed. -/
theorem eq_of_value_error {converted : Except EncodeError Value}
    (h : value converted c = .error error d) : d = { c with pending := none } := by
  obtain ⟨tag, dict, _ | k⟩ := c
  · cases h
    rfl
  · exact (field_eq_error_iff.1 h).2

/-- A key that is refused leaves the collector as it was, and an entry with it does so, too. -/
theorem step_of_keyText_error {k : Datum} {error : EncodeError} (refused : k.keyText = .error error)
    (c : DictCollector) :
    step (.key k) c = .error error c ∧ ∀ d, step (.entry k d) c = .error error c := by
  have alone : key k.keyText c = .error error c := key_eq_error_iff.2 ⟨refused, rfl⟩
  refine ⟨alone, ?_⟩
  intro d
  exact EStateM.bind_eq_error_iff.2 (.inl alone)

end DictCollector

end PackStream
