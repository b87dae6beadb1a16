import PackStream.Encoding.Sink

/-!
# Room in sinks

A sink that takes something in every call for which there is room takes all of a byte string if it
has room for all of it, and otherwise as much as it has room for.

Main statement: `writeAll_cases`.
-/

set_option autoImplicit false

namespace PackStream.Sink

/-- Whether a call takes something if there is room and it is not interrupted. -/
def Steady (s : Sink) : Prop :=
  s.chunk ≠ some 0

/-- Whether there is room for `n` more bytes. -/
def Fits (s : Sink) (n : Nat) : Prop :=
  ∀ r, s.room = some r → n ≤ r

/-- The beginning of a byte string that there is room for. -/
def fitting (s : Sink) (bs : Bytes) : Bytes :=
  match s.room with
  | none => bs
  | some r => bs.take r

/-- A steady sink without a limit. -/
def TakesAll (s : Sink) : Prop :=
  s.limit = none ∧ s.Steady

theorem TakesAll.fits {s : Sink} (h : s.TakesAll) (n : Nat) : s.Fits n := by
  intro r hr
  rw [room, h.1] at hr
  cases hr

theorem fitting_of_fits {s : Sink} {bs : Bytes} (h : s.Fits bs.length) : s.fitting bs = bs := by
  unfold fitting
  cases hr : s.room with
  | none => rfl
  | some r => exact List.take_of_length_le (h r hr)

theorem exists_room_of_not_fits {s : Sink} {n : Nat} (h : ¬ s.Fits n) :
    ∃ r, s.room = some r ∧ r < n := by
  simp only [Fits, Classical.not_forall, Nat.not_le] at h
  obtain ⟨r, hr, lt⟩ := h
  exact ⟨r, hr, lt⟩

/-- A full sink has room for nothing. -/
theorem not_fits_of_full {s : Sink} (full : s.room = some 0) (b : UInt8) (bs : Bytes) :
    ¬ s.Fits (b :: bs).length ∧ s.fitting (b :: bs) = [] := by
  constructor
  · intro h
    exact absurd (h 0 full) (Nat.not_succ_le_zero _)
  · rw [fitting, full]
    rfl

/-- What comes after something that does not fit makes no difference. -/
theorem fitting_append_of_not_fits {s : Sink} {xs : Bytes} (h : ¬ s.Fits xs.length) (ys : Bytes) :
    s.fitting (xs ++ ys) = s.fitting xs := by
  obtain ⟨r, hr, lt⟩ := exists_room_of_not_fits h
  simp only [fitting, hr]
  exact List.take_append_of_le_length (Nat.le_of_lt lt)

/-! ## Room after an addition -/

theorem room_of_bytes {s t : Sink} {bs : Bytes} (limit : t.limit = s.limit)
    (bytes : t.bytes.toList = s.bytes.toList ++ bs) : t.room = s.room.map (· - bs.length) := by
  have size : t.bytes.size = s.bytes.size + bs.length := by
    rw [← Array.length_toList, bytes, List.length_append, Array.length_toList]
  unfold room
  rw [limit, size, Option.map_map]
  congr 1
  funext n
  exact (Nat.sub_sub _ _ _).symm

section

variable {s t : Sink} {xs : Bytes}

theorem fits_append_iff (added : t.room = s.room.map (· - xs.length)) (first : s.Fits xs.length)
    (n : Nat) : t.Fits n ↔ s.Fits (xs.length + n) := by
  unfold Fits at first ⊢
  rw [added]
  cases hr : s.room with
  | none => simp
  | some r =>
    have le := first r hr
    simp only [Option.map_some, Option.some.injEq, forall_eq']
    omega

theorem fitting_append (added : t.room = s.room.map (· - xs.length)) (first : s.Fits xs.length)
    (ys : Bytes) : s.fitting (xs ++ ys) = xs ++ t.fitting ys := by
  unfold Fits at first
  unfold fitting
  rw [added]
  cases hr : s.room with
  | none => rfl
  | some r =>
    have le := first r hr
    simp only [Option.map_some]
    rw [List.take_append, List.take_of_length_le le]

end

/-! ## Writing -/

theorem limit_chunk_of_write {s t : Sink} {bs : Bytes} {a : Answer} (h : s.write bs = (a, t)) :
    t.limit = s.limit ∧ t.chunk = s.chunk := by
  obtain ⟨bytes, limit, chunk, whenFull, interrupts, calls⟩ := s
  unfold write at h
  dsimp only at h
  split at h
  · cases h
    exact ⟨rfl, rfl⟩
  · split at h
    · cases h
      exact ⟨rfl, rfl⟩
    · cases h
      exact ⟨rfl, rfl⟩

/-- A portion of something is something, if there is room and chunks are not empty. -/
theorem portion_ne_nil {room chunk : Option Nat} (hr : room ≠ some 0) (hc : chunk ≠ some 0)
    (b : UInt8) (bs : Bytes) : portion room chunk (b :: bs) ≠ [] := by
  unfold portion
  cases room <;> cases chunk <;> simp_all

theorem length_portion_le (r : Nat) (chunk : Option Nat) (bs : Bytes) :
    (portion (some r) chunk bs).length ≤ r := by
  unfold portion
  exact List.length_take_le _ _

/-- A call with something on offer is interrupted, or has no room and takes nothing, or takes
something for which there is room. -/
theorem Steady.answer {s t : Sink} {b : UInt8} {bs : Bytes} {a : Answer} (steady : s.Steady)
    (h : s.write (b :: bs) = (a, t)) :
    a = .interrupted ∨ (s.room = some 0 ∧ a.taken = 0) ∨
      ∃ n, a = .took (n + 1) ∧ s.Fits (n + 1) := by
  obtain ⟨bytes, limit, chunk, whenFull, interrupts, calls⟩ := s
  unfold write at h
  dsimp only at h
  split at h
  · cases h
    exact .inl rfl
  · split at h
    · rename_i full
      cases h
      cases whenFull <;> exact .inr (.inl ⟨full, rfl⟩)
    · rename_i free
      cases h
      have some_ := List.length_pos_iff.2 (portion_ne_nil free steady b bs)
      obtain ⟨n, hn⟩ := Nat.exists_eq_add_one.2 some_
      refine .inr (.inr ⟨n, congrArg _ hn, ?_⟩)
      intro r hr
      rw [← hn, hr]
      exact length_portion_le r chunk (b :: bs)

/-- A steady sink takes all of a byte string if it has room for it, and keeps its limit and its
chunk size; otherwise the write fails after what there is room for. -/
theorem writeAll_cases {s : Sink} (steady : s.Steady) (bs : Bytes) :
    (s.Fits bs.length ∧ ∃ t, s.writeAll bs = .ok () t ∧ t.limit = s.limit ∧ t.chunk = s.chunk) ∨
      (¬ s.Fits bs.length ∧ ∃ reason t, s.writeAll bs = .error reason t ∧
        t.bytes.toList = s.bytes.toList ++ s.fitting bs) := by
  fun_induction writeAll s bs with
  | case1 s => exact .inl ⟨fun _ _ => Nat.zero_le _, s, rfl, rfl, rfl⟩
  | case2 s b bs t hw ih =>
    obtain ⟨limit, chunk⟩ := limit_chunk_of_write hw
    have bytes : t.bytes.toList = s.bytes.toList := by simpa [Answer.taken] using bytes_of_write hw
    have steady' : t.Steady := by rwa [Steady, chunk]
    have room : t.room = s.room := by simp [Sink.room, limit, ← Array.length_toList, bytes]
    simpa only [Fits, fitting, room, bytes, limit, chunk] using ih steady'
  | case3 s b bs reason t hw =>
    have bytes := bytes_of_write hw
    rcases steady.answer hw with interrupted | ⟨full, -⟩ | ⟨n, took, -⟩
    · cases interrupted
    · obtain ⟨not_fits, nothing⟩ := not_fits_of_full full b bs
      exact .inr ⟨not_fits, reason, t, rfl, by rw [bytes, nothing]; rfl⟩
    · cases took
  | case4 s b bs t hw =>
    have bytes := bytes_of_write hw
    rcases steady.answer hw with interrupted | ⟨full, -⟩ | ⟨n, took, -⟩
    · cases interrupted
    · obtain ⟨not_fits, nothing⟩ := not_fits_of_full full b bs
      exact .inr ⟨not_fits, _, t, rfl, by rw [bytes, nothing]; rfl⟩
    · cases took
  | case5 s b bs n t hw ih =>
    obtain ⟨limit, chunk⟩ := limit_chunk_of_write hw
    have steady' : t.Steady := by rwa [Steady, chunk]
    rcases steady.answer hw with interrupted | ⟨-, nothing⟩ | ⟨m, took, first⟩
    · cases interrupted
    · cases nothing
    · cases took
      have bytes : t.bytes.toList = s.bytes.toList ++ (b :: bs).take (n + 1) := bytes_of_write hw
      have added := room_of_bytes limit bytes
      have fits : s.Fits ((b :: bs).take (n + 1)).length := fun r hr =>
        Nat.le_trans (List.length_take_le _ _) (first r hr)
      -- The rest is offered to the sink after this call.
      have parts : (b :: bs).take (n + 1) ++ bs.drop n = b :: bs := List.take_append_drop (n + 1) _
      have length := congrArg List.length parts
      rw [List.length_append] at length
      have rest := fits_append_iff added fits (bs.drop n).length
      have cut := fitting_append added fits (bs.drop n)
      rw [length] at rest
      rw [parts] at cut
      rw [← rest, cut, ← List.append_assoc, ← bytes, ← limit, ← chunk]
      exact ih steady'

end PackStream.Sink
