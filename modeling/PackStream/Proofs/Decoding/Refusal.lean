import PackStream.Proofs.Decoding.Parts

/-!
# Refusals are all that reading fails with

The reader would be at fault if it took bytes that are not there, asked for the payload of an
integer that has none, or met the bound on nesting. Since every number of bytes is checked for
before it is taken, since no marker announces such an integer, and since every value takes a marker
from the input, it is not: it yields a value or refuses the input. Bytes after the value are a
reason to refuse only where a value is to be all there is.

Main statement: `value_yields_or_refuses`.
-/

set_option autoImplicit false

namespace PackStream.Reader

variable {α β : Type} {bound : Nat}

/-- On input shorter than `bound`, the reader stops only to refuse the input, and not for bytes
after a value. -/
structure Guarded (bound : Nat) (r : Reader α) : Prop where
  advances : Advances r
  refuses {c d : Cursor} {stop : Stop} (h : c.rest.length < bound) (failed : r c = .error stop d) :
    ∃ error, stop = .refused error ∧ ∀ count, error ≠ .trailingBytes count

theorem Guarded.bind {r : Reader α} {k : α → Reader β} (hr : Guarded bound r)
    (hk : ∀ a, Guarded bound (k a)) : Guarded bound (r >>= k) := by
  refine ⟨hr.advances.bind fun a => (hk a).advances, ?_⟩
  intro c e stop hc failed
  obtain first | ⟨a, d, first, second⟩ := EStateM.bind_eq_error_iff.1 failed
  · exact hr.refuses hc first
  · exact (hk a).refuses (hr.advances.lt_of_ok hc first) second

theorem guarded_pure (a : α) : Guarded bound (pure a) :=
  ⟨fun _ => List.suffix_refl _, fun _ failed => nomatch failed⟩

theorem guarded_refuse {error : DecodeError} (other : ∀ count, error ≠ .trailingBytes count) :
    Guarded bound (refuse error : Reader α) := by
  refine ⟨fun _ => List.suffix_refl _, ?_⟩
  intro c d stop _ failed
  cases failed
  exact ⟨error, rfl, other⟩

/-- What is missing is noticed when it is checked for. -/
theorem guarded_reads {n : Nat} {r : Reader α} {k : α → Reader β} (takes : Takes n r)
    (hk : ∀ a, Guarded bound (k a)) : Guarded bound (need n >>= fun _ => r >>= k) := by
  refine ⟨(advances_need n).bind fun _ => takes.advances.bind fun a => (hk a).advances, ?_⟩
  intro c e stop hc failed
  obtain ⟨-, short⟩ | ⟨a, d, -, -, left, same⟩ := takes.need_bind_apply k c
  · cases short.symm.trans failed
    exact ⟨_, rfl, nofun⟩
  · exact (hk a).refuses (by omega) (same.symm.trans failed)

theorem guarded_begin {k : UInt8 → Reader α} (hk : ∀ marker, Guarded bound (k marker)) :
    Guarded (bound + 1) (begin >>= fun _ => need 1 >>= fun _ => byte >>= k) := by
  refine ⟨advances_begin fun marker => (hk marker).advances, ?_⟩
  intro c d stop hc failed
  rw [begin_apply] at failed
  obtain ⟨_ | ⟨marker, rest⟩, begun, events⟩ := c
  · cases failed
    exact ⟨_, rfl, nofun⟩
  · exact (hk marker).refuses (Nat.lt_of_succ_lt_succ hc) failed

/-- Refusing and nothing else follows the parts of the reader. -/
theorem compositional_guarded : Compositional fun bound r _ => Guarded bound r where
  pure := guarded_pure
  bind := Guarded.bind
  reads := guarded_reads
  marker := guarded_begin
  invalidUtf8 _ := guarded_refuse nofun
  nonStringKey _ := guarded_refuse nofun
  duplicateKey _ := guarded_refuse nofun
  reserved _ :=
    Guarded.bind ⟨fun _ => List.suffix_refl _, fun _ failed => nomatch failed⟩ fun _ =>
      guarded_refuse nofun
  zero forward _ := ⟨forward, fun none => absurd none (Nat.not_lt_zero _)⟩

theorem guarded_nested (depth : Nat) : Guarded depth (nested depth) :=
  compositional_guarded.nested_self depth

theorem Guarded.ne_fault {r : Reader α} {c : Cursor} (hr : Guarded bound r)
    (h : c.rest.length < bound) (fault : ReaderFault) : (r c).outcome ≠ .error (.fault fault) := by
  cases done : r c with
  | ok a d => nofun
  | error stop d =>
    obtain ⟨error, rfl, -⟩ := hr.refuses h done
    nofun

theorem refuses_of_value_error {c d : Cursor} {stop : Stop} (failed : value c = .error stop d) :
    ∃ error, stop = .refused error ∧ ∀ count, error ≠ .trailingBytes count :=
  (guarded_nested (c.rest.length + 1)).refuses (Nat.lt_succ_self _) failed

theorem outcome_take_eq_overrun_iff {n : Nat} {c : Cursor} :
    (take n c).outcome = .error (.fault .overrun) ↔ c.rest.length < n := by
  obtain ⟨rest, begun, events⟩ := c
  by_cases enough : n ≤ rest.length
  · have taken : rest.hasAtLeast n := Bytes.hasAtLeast_iff.2 enough
    simpa [take, taken, EStateM.Result.outcome] using enough
  · have short : ¬rest.hasAtLeast n := fun taken => enough (Bytes.hasAtLeast_iff.1 taken)
    simpa [take, short, EStateM.Result.outcome] using enough

theorem outcome_byte_eq_overrun_iff {c : Cursor} :
    (byte c).outcome = .error (.fault .overrun) ↔ c.rest = [] := by
  obtain ⟨_ | ⟨b, rest⟩, begun, events⟩ := c
  · simp [byte, EStateM.Result.outcome]
  · simp [byte, EStateM.Result.outcome]

/-- Taking bytes that are not there, or the payload of an integer that has none, is a fault. The
parts of a value never come to that, whatever their width, no marker announces such an integer, and
no value comes to it, however deep it lies in another. So a value is read, or it is refused, and
then not for the bytes after it; and a byte string yields a value or is refused. -/
theorem value_yields_or_refuses :
    ((∀ n c, (take n c).outcome = .error (.fault .overrun) ↔ c.rest.length < n) ∧
      (∀ c, (byte c).outcome = .error (.fault .overrun) ↔ c.rest = []) ∧
      ∀ c, (integer .tiny c).outcome = .error (.fault .noPayload)) ∧
    (∀ c fault, (∀ width, (size width c).outcome ≠ .error (.fault fault)) ∧
      (∀ width, width ≠ .tiny → (integer width c).outcome ≠ .error (.fault fault)) ∧
      (float c).outcome ≠ .error (.fault fault) ∧
      ∀ n, (text n c).outcome ≠ .error (.fault fault)) ∧
    (∀ marker, Marker.ofByte marker ≠ .int .tiny) ∧
    (∀ depth c, c.rest.length < depth →
      ∀ fault, (nested depth c).outcome ≠ .error (.fault fault)) ∧
    (∀ c, (∃ v, (value c).outcome = .ok v) ∨
      ∃ error, (value c).outcome = .error (.refused error) ∧
        ∀ count, error ≠ .trailingBytes count) ∧
    ∀ bs, (∃ v, Value.ofBytes bs = .ok v) ∨
      ∃ error, Value.ofBytes bs = .error (.refused error) := by
  refine ⟨⟨?_, ?_, fun _ => rfl⟩, ?_, ?_, ?_, ?_, ?_⟩
  · exact fun _ _ => outcome_take_eq_overrun_iff
  · exact fun _ => outcome_byte_eq_overrun_iff
  · intro c fault
    have law := compositional_guarded
    have within := Nat.lt_succ_self c.rest.length
    exact ⟨fun width => (law.size width).ne_fault within fault,
      fun width wide => (law.integer wide).ne_fault within fault, law.float.ne_fault within fault,
      fun n => (law.text n).ne_fault within fault⟩
  · intro marker tiny
    cases IntWidth.ofByte_eq_int_iff.1 tiny
  · exact fun depth c within => (guarded_nested depth).ne_fault within
  · intro c
    cases done : value c with
    | ok v d => exact .inl ⟨v, rfl⟩
    | error stop d =>
      obtain ⟨error, rfl, other⟩ := refuses_of_value_error done
      exact .inr ⟨error, rfl, other⟩
  · intro bs
    rw [ofBytes_eq]
    cases done : value { rest := bs } with
    | ok v d =>
      dsimp only
      split
      · exact .inl ⟨v, rfl⟩
      · exact .inr ⟨_, rfl⟩
    | error stop d =>
      obtain ⟨error, rfl, -⟩ := refuses_of_value_error done
      exact .inr ⟨error, rfl⟩

/-- In a list, the second byte of an integer of 16 bits is missing. -/
example : (value { rest := [0x91, 0xC9, 0x00] }).outcome =
    .error (.refused (.unexpectedEof 2 1)) := rfl

end PackStream.Reader
