import PackStream.Decoding.Reader
import PackStream.Proofs.Outcome

/-!
# What readers accept

A reader accepts a relation between results and byte strings if it succeeds exactly on input that
begins with the bytes of a result, and stops right after them. The lemmas follow the ways in which
readers are put together.

Input is bounded in length, so that a reader which may nest only so deep can still be said to
accept forms of any depth: they do not fit into the input otherwise.
-/

set_option autoImplicit false

namespace PackStream.Reader

variable {α β : Type} {bound : Nat}

/-- On input of at most `bound` bytes, the reader succeeds exactly on what begins with the bytes
of a result, and leaves what follows them. -/
def Accepts (bound : Nat) (r : Reader α) (L : α → Bytes → Prop) : Prop :=
  ∀ c : Cursor, c.rest.length ≤ bound → ∀ (a : α) (rest : Bytes),
    (∃ c', r c = .ok a c' ∧ c'.rest = rest) ↔ ∃ w, c.rest = w ++ rest ∧ L a w

theorem Accepts.congr {r : Reader α} {L M : α → Bytes → Prop} (h : Accepts bound r L)
    (same : ∀ a w, L a w ↔ M a w) : Accepts bound r M := by
  intro c hc a rest
  rw [h c hc a rest]
  simp only [same]

theorem Accepts.mono {n : Nat} {r : Reader α} {L : α → Bytes → Prop} (h : Accepts n r L)
    (le : bound ≤ n) : Accepts bound r L :=
  fun c hc => h c (Nat.le_trans hc le)

/-- What is left after a success is within the bound, too. -/
theorem Accepts.length_le_of_ok {r : Reader α} {L : α → Bytes → Prop} (h : Accepts bound r L)
    {c d : Cursor} {a : α} (hc : c.rest.length ≤ bound) (done : r c = .ok a d) :
    d.rest.length ≤ bound := by
  obtain ⟨w, hw, -⟩ := (h c hc a d.rest).1 ⟨d, done, rfl⟩
  rw [hw, List.length_append] at hc
  omega

theorem accepts_pure (a : α) : Accepts bound (pure a) fun b w => b = a ∧ w = [] := by
  intro c _ b rest
  refine ⟨?_, ?_⟩
  · intro given
    rcases given with ⟨c', h, rfl⟩
    cases h
    exact ⟨[], rfl, rfl, rfl⟩
  · intro given
    rcases given with ⟨w, hw, rfl, rfl⟩
    exact ⟨c, rfl, hw⟩

theorem accepts_throw (stop : Stop) :
    Accepts bound (throw stop : Reader α) fun _ _ => False := by
  intro c _ a rest
  refine ⟨?_, ?_⟩
  · intro given
    rcases given with ⟨c', h, -⟩
    cases h
  · intro given
    rcases given with ⟨_, _, h⟩
    exact h.elim

theorem Accepts.bind {r : Reader α} {k : α → Reader β} {L : α → Bytes → Prop}
    {M : α → β → Bytes → Prop} (hr : Accepts bound r L) (hk : ∀ a, Accepts bound (k a) (M a)) :
    Accepts bound (r >>= k) fun b w => ∃ a p q, L a p ∧ M a b q ∧ w = p ++ q := by
  intro c hc b rest
  refine ⟨?_, ?_⟩
  · intro given
    rcases given with ⟨d, h, rfl⟩
    obtain ⟨a, c', first, second⟩ := EStateM.bind_eq_ok_iff.1 h
    obtain ⟨p, hp, hL⟩ := (hr c hc a c'.rest).1 ⟨c', first, rfl⟩
    have hc' := hr.length_le_of_ok hc first
    obtain ⟨q, hq, hM⟩ := (hk a c' hc' b d.rest).1 ⟨d, second, rfl⟩
    exact ⟨p ++ q, by rw [hp, hq, List.append_assoc], a, p, q, hL, hM, rfl⟩
  · intro given
    rcases given with ⟨_, hw, a, p, q, hL, hM, rfl⟩
    rw [List.append_assoc] at hw
    obtain ⟨c', first, left⟩ := (hr c hc a (q ++ rest)).2 ⟨p, hw, hL⟩
    have hc' := hr.length_le_of_ok hc first
    obtain ⟨d, second, done⟩ := (hk a c' hc' b rest).2 ⟨q, left, hM⟩
    exact ⟨d, EStateM.bind_eq_ok_iff.2 ⟨a, c', first, second⟩, done⟩

theorem Accepts.map {r : Reader α} {f : α → β} {L : α → Bytes → Prop} (h : Accepts bound r L) :
    Accepts bound (r >>= fun a => pure (f a)) fun b w => ∃ a, L a w ∧ b = f a := by
  refine (h.bind fun a => accepts_pure (f a)).congr ?_
  intro b w
  refine ⟨?_, ?_⟩
  · intro given
    rcases given with ⟨a, p, _, hL, ⟨rfl, rfl⟩, rfl⟩
    exact ⟨a, by rwa [List.append_nil], rfl⟩
  · intro given
    rcases given with ⟨a, hL, rfl⟩
    exact ⟨a, w, [], hL, ⟨rfl, rfl⟩, (List.append_nil w).symm⟩

/-! ## Bytes -/

theorem need_apply (n : Nat) (c : Cursor) :
    need n c = if n ≤ c.rest.length then .ok () c
      else .error (.refused (.unexpectedEof n c.rest.length)) c := by
  unfold need
  simp only [Bytes.hasAtLeast_iff]

/-- A check for bytes that are read anyway accepts nothing more and nothing less. -/
theorem Accepts.need {n : Nat} {r : Reader α} {L : α → Bytes → Prop} (h : Accepts bound r L)
    (enough : ∀ a w, L a w → n ≤ w.length) : Accepts bound (need n >>= fun _ => r) L := by
  intro c hc a rest
  rw [← h c hc a rest]
  by_cases hn : n ≤ c.rest.length
  · have same : (Reader.need n >>= fun _ => r) c = r c := by
      rw [EStateM.bind_apply, need_apply, if_pos hn]
    rw [same]
  · refine ⟨?_, ?_⟩
    · intro given
      rcases given with ⟨d, hd, -⟩
      obtain ⟨_, c', first, -⟩ := EStateM.bind_eq_ok_iff.1 hd
      rw [need_apply, if_neg hn] at first
      cases first
    · intro hd
      obtain ⟨w, hw, hL⟩ := (h c hc a rest).1 hd
      have := enough a w hL
      rw [hw, List.length_append] at hn
      omega

theorem accepts_take (n : Nat) : Accepts bound (take n) fun bs w => bs = w ∧ w.length = n := by
  intro c _ bs rest
  obtain ⟨input, begun, events⟩ := c
  show (∃ c', (if input.hasAtLeast n then _ else _) = _ ∧ _) ↔ _
  by_cases hn : n ≤ input.length
  · rw [if_pos (Bytes.hasAtLeast_iff.2 hn)]
    refine ⟨?_, ?_⟩
    · intro given
      rcases given with ⟨c', h, rfl⟩
      cases h
      exact ⟨input.take n, (List.take_append_drop n input).symm, rfl, List.length_take_of_le hn⟩
    · intro given
      rcases given with ⟨w, hw, rfl, hlen⟩
      dsimp only at hw
      subst hw
      exact ⟨_, by rw [List.take_left' hlen], by rw [List.drop_left' hlen]⟩
  · rw [if_neg (mt Bytes.hasAtLeast_iff.1 hn)]
    refine ⟨?_, ?_⟩
    · intro given
      rcases given with ⟨c', h, -⟩
      cases h
    · intro given
      rcases given with ⟨w, hw, rfl, hlen⟩
      dsimp only at hw
      rw [hw, List.length_append] at hn
      omega

/-- Reading a byte leaves one byte less to what follows. -/
theorem accepts_byte_bind {k : UInt8 → Reader α} {M : UInt8 → α → Bytes → Prop}
    (hk : ∀ b, Accepts bound (k b) (M b)) :
    Accepts (bound + 1) (byte >>= k) fun a w => ∃ b q, M b a q ∧ w = b :: q := by
  intro c hc a rest
  obtain ⟨input, begun, events⟩ := c
  cases input with
  | nil =>
    refine ⟨?_, ?_⟩
    · intro given
      rcases given with ⟨c', h, -⟩
      cases h
    · intro given
      rcases given with ⟨_, hw, b, q, -, rfl⟩
      cases hw
  | cons b input =>
    have short : input.length ≤ bound := Nat.le_of_succ_le_succ hc
    have step := hk b { rest := input, begun, events } short a rest
    refine ⟨?_, ?_⟩
    · intro given
      rcases given with ⟨c', h, hrest⟩
      obtain ⟨q, hq, hM⟩ := step.1 ⟨c', h, hrest⟩
      dsimp only at hq
      exact ⟨b :: q, by rw [hq]; rfl, b, q, hM, rfl⟩
    · intro given
      rcases given with ⟨_, hw, b', q, hM, rfl⟩
      cases hw
      exact step.2 ⟨q, rfl, hM⟩

theorem accepts_begin_bind {r : Reader α} {L : α → Bytes → Prop} (h : Accepts bound r L) :
    Accepts bound (begin >>= fun _ => r) L := by
  intro c hc a rest
  obtain ⟨input, begun, events⟩ := c
  exact h { rest := input, begun := begun + 1, events } hc a rest

end PackStream.Reader
