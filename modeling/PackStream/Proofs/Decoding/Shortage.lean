import PackStream.Proofs.Decoding.Continuation

/-!
# Missing bytes

Where reading runs out of bytes, it says how many it needs at that place and how many are left
there. These numbers are exact: until as many more bytes have come as are missing, reading stops at
the same place, and with them it gets past all the bytes that it needed.

Main statement: `value_missing_bytes`.
-/

set_option autoImplicit false

namespace PackStream.Reader

/-- After running out of bytes, either the new bytes are too few and reading stops at the same
place, or they are enough and it gets past what it needed. -/
theorem append_of_unexpectedEof {c d : Cursor} {needed left : Nat}
    (failed : value c = .error (.refused (.unexpectedEof needed left)) d) (more : Bytes) :
    d.rest.length = left ∧ left < needed ∧
      (left + more.length < needed ∧
          value (c.append more) =
            .error (.refused (.unexpectedEof needed (left + more.length))) (d.append more) ∨
        (value (c.append more)).state.rest.length + needed ≤ left + more.length) := by
  have follows := after_value c more
  rw [failed] at follows
  revert follows
  generalize value (c.append more) = result
  intro follows
  cases follows with
  | stopped decided => exact absurd rfl (decided needed left)
  | short few => exact ⟨rfl, Nat.lt_of_add_right_lt few, .inl ⟨few, rfl⟩⟩
  | resumed few past => exact ⟨rfl, few, .inr past⟩

/-- If reading runs out of bytes after `w`, what it says is left is left, and it needs more. With
fewer new bytes than are missing it runs out after `w` again, and needs as many; with at least as
many as are missing it takes after `w` no less than it needed. -/
theorem value_missing_bytes {c d : Cursor} {needed left : Nat}
    (failed : value c = .error (.refused (.unexpectedEof needed left)) d) :
    d.rest.length = left ∧ left < needed ∧
      ∃ w, c.rest = w ++ d.rest ∧
        (∀ more : Bytes, more.length < needed - left →
          value (c.append more) =
            .error (.refused (.unexpectedEof needed (left + more.length))) (d.append more) ∧
          (c.append more).rest = w ++ (d.append more).rest) ∧
        ∀ more : Bytes, needed - left ≤ more.length →
          ∃ taken, (c.append more).rest = w ++ taken ++ (value (c.append more)).state.rest ∧
            needed ≤ taken.length := by
  obtain ⟨same, few, -⟩ := append_of_unexpectedEof failed []
  obtain ⟨w, split⟩ : d.rest <:+ c.rest := by
    have forward := advances_value c
    rwa [failed] at forward
  have split_append (more : Bytes) : (c.append more).rest = w ++ (d.append more).rest := by
    show c.rest ++ more = w ++ (d.rest ++ more)
    rw [← split, List.append_assoc]
  refine ⟨same, few, w, split.symm, ?_, ?_⟩
  · intro more fewer
    obtain ⟨-, -, short | past⟩ := append_of_unexpectedEof failed more
    · exact ⟨short.2, split_append more⟩
    · omega
  · intro more enough
    obtain ⟨-, -, short | past⟩ := append_of_unexpectedEof failed more
    · omega
    · -- What is left in the end is an end of what was left after `w`.
      have shorter : (value (c.append more)).state.rest.length ≤ (d.append more).rest.length := by
        rw [d.length_rest_append more]
        omega
      obtain ⟨taken, rest⟩ := List.suffix_of_suffix_length_le (advances_value (c.append more))
        ⟨w, (split_append more).symm⟩ shorter
      have total := congrArg List.length rest
      rw [List.length_append, d.length_rest_append more] at total
      refine ⟨taken, ?_, by omega⟩
      rw [split_append more, ← rest, List.append_assoc]

/-- Inside a list, two bytes of a text are missing: one does not help, and three are enough. -/
theorem value_missing_bytes_text :
    let c : Cursor := { rest := [0x91, 0x83, 0x61] }
    let d : Cursor := { rest := [0x61], begun := 2 }
    value c = .error (.refused (.unexpectedEof 3 1)) d ∧
      value (c.append [0x62]) = .error (.refused (.unexpectedEof 3 2)) (d.append [0x62]) ∧
      ∃ taken, (c.append [0x62, 0x63, 0x64]).rest =
          [0x91, 0x83] ++ taken ++ (value (c.append [0x62, 0x63, 0x64])).state.rest ∧
        3 ≤ taken.length := by
  intro c d
  have failed : value c = .error (.refused (.unexpectedEof 3 1)) d := rfl
  obtain ⟨-, -, w, split, fewer, enough⟩ := value_missing_bytes failed
  have begun : w = [0x91, 0x83] := List.append_cancel_right split.symm
  cases begun
  exact ⟨failed, (fewer [0x62] (by decide)).1, enough [0x62, 0x63, 0x64] (by decide)⟩

end PackStream.Reader
