import PackStream.Proofs.Decoding.Acceptance
import PackStream.Proofs.Decoding.Parts
import PackStream.Proofs.Outcome

/-!
# Later bytes

Whatever reading comes to without running out of bytes, it comes to as well if more bytes follow,
and it leaves the same bytes with the new ones after them. Where it runs out of bytes, it says how
many it needs at that place; with fewer than these it still runs out there, and otherwise it gets
past them.

Main statements: `after_value`, and `decided_value_append`, which leaves out how reading goes on.
-/

set_option autoImplicit false

namespace PackStream

/-- The cursor with more bytes after those that are left. -/
def Cursor.append (c : Cursor) (more : Bytes) : Cursor :=
  { c with rest := c.rest ++ more }

theorem Cursor.length_rest_append (c : Cursor) (more : Bytes) :
    (c.append more).rest.length = c.rest.length + more.length :=
  List.length_append

/-- How the result of reading with more bytes after the input follows from the result without
them. -/
inductive After {α : Type} (more : Bytes) :
    EStateM.Result Stop Cursor α → EStateM.Result Stop Cursor α → Prop
  | ok (a : α) (d : Cursor) : After more (.ok a d) (.ok a (d.append more))
  | stopped {stop : Stop} (decided : ∀ needed left, stop ≠ .refused (.unexpectedEof needed left))
      (d : Cursor) : After more (.error stop d) (.error stop (d.append more))
  /-- The new bytes are not enough. -/
  | short {needed : Nat} {d : Cursor} (few : d.rest.length + more.length < needed) :
      After more (.error (.refused (.unexpectedEof needed d.rest.length)) d)
        (.error (.refused (.unexpectedEof needed (d.rest.length + more.length))) (d.append more))
  /-- The new bytes are enough, and reading gets past what was needed. -/
  | resumed {needed : Nat} {d : Cursor} {result : EStateM.Result Stop Cursor α}
      (few : d.rest.length < needed)
      (past : result.state.rest.length + needed ≤ d.rest.length + more.length) :
      After more (.error (.refused (.unexpectedEof needed d.rest.length)) d) result

namespace Reader

variable {α β : Type} {bound : Nat}

/-- Both readers only move forward, and on input shorter than `bound` the second comes to with more
bytes what follows from the first without them. -/
structure Continues (bound : Nat) (r r' : Reader α) : Prop where
  advances : Advances r
  advances' : Advances r'
  after (c : Cursor) (h : c.rest.length < bound) (more : Bytes) :
    After more (r c) (r' (c.append more))

theorem Continues.mono {n : Nat} {r r' : Reader α} (h : Continues n r r') (le : bound ≤ n) :
    Continues bound r r' :=
  ⟨h.advances, h.advances', fun c hc => h.after c (Nat.lt_of_lt_of_le hc le)⟩

theorem continues_pure (a : α) : Continues bound (pure a) (pure a) :=
  ⟨fun _ => List.suffix_refl _, fun _ => List.suffix_refl _, fun c _ _ => .ok a c⟩

theorem continues_throw {stop : Stop}
    (decided : ∀ needed left, stop ≠ .refused (.unexpectedEof needed left)) :
    Continues bound (throw stop : Reader α) (throw stop) :=
  ⟨fun _ => List.suffix_refl _, fun _ => List.suffix_refl _, fun c _ _ => .stopped decided c⟩

theorem Continues.bind {r r' : Reader α} {k k' : α → Reader β} (hr : Continues bound r r')
    (hk : ∀ a, Continues bound (k a) (k' a)) : Continues bound (r >>= k) (r' >>= k') := by
  refine ⟨hr.advances.bind fun a => (hk a).advances, hr.advances'.bind fun a => (hk a).advances',
    ?_⟩
  intro c hc more
  have first := hr.after c hc more
  rw [EStateM.bind_apply, EStateM.bind_apply]
  revert first
  generalize r' (c.append more) = result'
  intro first
  cases done : r c with
  | ok a d =>
    rw [done] at first
    cases first
    exact (hk a).after d (hr.advances.lt_of_ok hc done) more
  | error stop d =>
    rw [done] at first
    cases first with
    | stopped decided => exact .stopped decided d
    | short few => exact .short few
    | resumed few past =>
      apply After.resumed few
      -- What comes later can only take more.
      apply Nat.le_trans _ past
      apply Nat.add_le_add_right
      cases result' with
      | ok a e => exact ((hk a).advances' e).length_le
      | error stop e => exact Nat.le_refl _

/-- A check for `n` bytes that is followed at once by taking them. With these bytes gone, the input
of what comes after is so much shorter. -/
theorem continues_need_bind {n : Nat} {r : Reader α} {k k' : α → Reader β} (hr : Takes n r)
    (hk : ∀ a, Continues bound (k a) (k' a)) :
    Continues (bound + n) (need n >>= fun _ => r >>= k) (need n >>= fun _ => r >>= k') := by
  refine ⟨(advances_need n).bind fun _ => hr.advances.bind fun a => (hk a).advances,
    (advances_need n).bind fun _ => hr.advances.bind fun a => (hk a).advances', ?_⟩
  intro c hc more
  have total := c.length_rest_append more
  rw [EStateM.bind_apply (need n), EStateM.bind_apply (need n), need_apply, need_apply, total]
  -- There are enough bytes, or enough with the new ones, or still not enough.
  by_cases enough : n ≤ c.rest.length
  · obtain ⟨a, d, now, -, -, left, taken⟩ := hr.ok c enough
    have same : r (c.append more) = .ok a (d.append more) := taken more
    rw [if_pos enough, if_pos (Nat.le_add_right_of_le enough)]
    simp only [EStateM.bind_apply, now, same]
    exact (hk a).after d (by omega) more
  · rw [if_neg enough]
    by_cases later : n ≤ c.rest.length + more.length
    · obtain ⟨a, d, now, -, -, left, -⟩ := hr.ok (c.append more) (total ▸ later)
      have forward := ((hk a).advances' d).length_le
      rw [if_pos later]
      apply After.resumed (Nat.not_le.1 enough)
      simp only [EStateM.bind_apply, now]
      omega
    · rw [if_neg later]
      exact .short (Nat.not_le.1 later)

theorem continues_begin : Continues bound begin begin := by
  have forward : Advances begin := by
    intro c
    obtain ⟨rest, begun, events⟩ := c
    exact List.suffix_refl rest
  refine ⟨forward, forward, ?_⟩
  intro c _ more
  obtain ⟨rest, begun, events⟩ := c
  exact .ok () { rest, begun := begun + 1, events }

theorem continues_report (event : Event) : Continues bound (report event) (report event) := by
  have forward : Advances (report event) := by
    intro c
    obtain ⟨rest, begun, events⟩ := c
    exact List.suffix_refl rest
  refine ⟨forward, forward, ?_⟩
  intro c _ more
  obtain ⟨rest, begun, events⟩ := c
  exact .ok () { rest, begun, events := events.push event }

/-- What follows with more bytes follows from the parts of the reader. -/
theorem compositional_continues : Compositional Continues where
  pure := continues_pure
  bind := Continues.bind
  reads takes next := (continues_need_bind takes next).mono (Nat.le_add_right _ _)
  marker next := continues_begin.bind fun _ => continues_need_bind takes_byte next
  invalidUtf8 _ := continues_throw nofun
  nonStringKey _ := continues_throw nofun
  duplicateKey _ := continues_throw nofun
  reserved _ := (continues_report _).bind fun _ => continues_throw nofun
  zero forward forward' := ⟨forward, forward', fun _ none => absurd none (Nat.not_lt_zero _)⟩

/-- With more bytes values may be nested deeper, but not within the bytes that were there. -/
theorem continues_nested {depth depth' : Nat} (le : depth ≤ depth') :
    Continues depth (nested depth) (nested depth') :=
  compositional_continues.nested le

theorem after_value (c : Cursor) (more : Bytes) :
    After more (value c) (value (c.append more)) := by
  have deeper : c.rest.length + 1 ≤ (c.append more).rest.length + 1 := by
    rw [c.length_rest_append more]
    exact Nat.succ_le_succ (Nat.le_add_right _ _)
  exact (continues_nested deeper).after c (Nat.lt_succ_self _) more

theorem ofBytes_of_value_error {bs : Bytes} {stop : Stop}
    (h : (value { rest := bs }).outcome = .error stop) : Value.ofBytes bs = .error stop := by
  rw [ofBytes_eq]
  cases done : value { rest := bs } with
  | ok v d =>
    rw [done] at h
    cases h
  | error stop' d =>
    rw [done] at h
    cases h
    rfl

/-- What reading comes to without running out of bytes, it comes to whatever bytes follow, and these
are left after the ones that were left before. So of the bytes that hold one value, no shorter part
holds one: reading it runs out of bytes. -/
theorem decided_value_append :
    (∀ (c : Cursor) (more : Bytes),
      (∀ needed left, (value c).outcome ≠ .error (.refused (.unexpectedEof needed left))) →
        value (c.append more) = (value c).mapState (·.append more)) ∧
    ∀ (p q : Bytes) (v : Value), q ≠ [] → Value.ofBytes (p ++ q) = .ok v →
      ∃ needed left,
        (value { rest := p }).outcome = .error (.refused (.unexpectedEof needed left)) ∧
        Value.ofBytes p = .error (.refused (.unexpectedEof needed left)) := by
  constructor
  · intro c more decided
    have follows := after_value c more
    revert follows decided
    generalize value c = result, value (c.append more) = result'
    intro decided follows
    cases follows with
    | ok a d => rfl
    | stopped _ d => rfl
    | short few => exact absurd rfl (decided _ _)
    | resumed few past => exact absurd rfl (decided _ _)
  · intro p q v hq accepted
    have reads : Accepts (p ++ q).length value Wire := accepts_value
    obtain ⟨d, read, nothing⟩ := (reads (Cursor.append { rest := p } q) (Nat.le_refl _) v []).2
      ⟨p ++ q, (List.append_nil _).symm, ofBytes_eq_ok_iff.1 accepted⟩
    have follows := after_value { rest := p } q
    rw [read] at follows
    have eof : ∃ needed left,
        (value { rest := p }).outcome = .error (.refused (.unexpectedEof needed left)) := by
      cases done : value { rest := p } with
      | ok u c =>
        rw [done] at follows
        cases follows
        exact absurd (List.append_eq_nil_iff.1 nothing).2 hq
      | error stop c =>
        rw [done] at follows
        cases follows
        exact ⟨_, _, rfl⟩
    obtain ⟨needed, left, short⟩ := eof
    exact ⟨needed, left, short, ofBytes_of_value_error short⟩

/-- A list with a reserved marker stays refused; one that breaks off does not hold a value. -/
theorem decided_value_append_list :
    let refused : Cursor := { rest := [0x92, 0x01, 0xC4] }
    let p : Bytes := [0x92, 0x01]
    let q : Bytes := [0x83, 0x61, 0x62, 0x63]
    ((∀ needed left, (value refused).outcome ≠ .error (.refused (.unexpectedEof needed left))) ∧
      value (refused.append q) = (value refused).mapState (·.append q)) ∧
    q ≠ [] ∧ Value.ofBytes (p ++ q) = .ok (.list [.integer 1, .string "abc"]) ∧
      ∃ needed left,
        (value { rest := p }).outcome = .error (.refused (.unexpectedEof needed left)) ∧
        Value.ofBytes p = .error (.refused (.unexpectedEof needed left)) := by
  intro refused p q
  have decided (needed left : Nat) :
      (value refused).outcome ≠ .error (.refused (.unexpectedEof needed left)) := by
    have marker : (value refused).outcome = .error (.refused (.unknownMarker 0xC4)) := rfl
    rw [marker]
    nofun
  have accepted : Value.ofBytes (p ++ q) = .ok (.list [.integer 1, .string "abc"]) := rfl
  exact ⟨⟨decided, decided_value_append.1 refused q decided⟩, nofun, accepted,
    decided_value_append.2 p q _ nofun accepted⟩

end Reader

end PackStream
