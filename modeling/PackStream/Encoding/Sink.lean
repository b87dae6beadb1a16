import PackStream.Bytes

/-!
# Byte sinks

Encoders write to any `Writer`, which takes byte strings in one piece or fails.

A `Sink` is one of them. It appends what it is given to the bytes it holds, but it may take less
than it is offered: it can be limited in size, take only a few bytes a call, and interrupt every
other call. One `write` is one such call; `writeAll` repeats it until everything is taken, an
interruption being no failure.

Main statements: `bytes_of_writeAll_ok`, a write that succeeds adds exactly what was given, and
`bytes_of_writeAll_error`, one that fails adds a strict beginning of it.
-/

set_option autoImplicit false

namespace PackStream

/-- Anything that byte strings are handed to in one piece each. -/
class Writer (σ : Type) where
  /-- Takes all of a byte string, or fails after what may be a part of it. -/
  writeAll : Bytes → EStateM String σ Unit

/-- What a sink does with a call when no room is left. -/
inductive WhenFull where
  | refuse
  | takeNothing
  deriving DecidableEq

/-- A byte sink. -/
structure Sink where
  bytes : Array UInt8 := #[]
  /-- How many bytes the sink holds at most. -/
  limit : Option Nat := none
  /-- How many bytes the sink takes at most in one call. -/
  chunk : Option Nat := none
  whenFull : WhenFull := .refuse
  /-- Whether the first call, the third and so on are interrupted. -/
  interrupts : Bool := false
  /-- How many calls the sink has had. -/
  calls : Nat := 0

namespace Sink

/-- What one call comes to. -/
inductive Answer where
  | took (n : Nat)
  | interrupted
  | refused (reason : String)

/-- How many bytes a call takes. -/
def Answer.taken : Answer → Nat
  | .took n => n
  | _ => 0

/-- The result of an operation on a sink, with the sink after it. -/
abbrev Result := EStateM.Result String Sink

/-- How many more bytes fit, or `none` without a limit. -/
def room (s : Sink) : Option Nat :=
  s.limit.map (· - s.bytes.size)

/-- Whether the next call is interrupted. -/
def interruptsNext (s : Sink) : Bool :=
  s.interrupts && s.calls % 2 == 0

/-- The beginning of `offered` that a call takes within the room and the chunk size. -/
def portion (room chunk : Option Nat) (offered : Bytes) : Bytes :=
  let within (cap : Option Nat) (bs : Bytes) : Bytes :=
    match cap with
    | some n => bs.take n
    | none => bs
  within room (within chunk offered)

/-- One call of the sink. -/
def write (s : Sink) (offered : Bytes) : Answer × Sink :=
  let interrupted := s.interruptsNext
  let room := s.room
  match s with
  | { bytes, limit, chunk, whenFull, interrupts, calls } =>
    let calls := calls + 1
    if interrupted then
      (.interrupted, { bytes, limit, chunk, whenFull, interrupts, calls })
    else if room = some 0 then
      let answer := match whenFull with
        | .refuse => .refused "sink closed"
        | .takeNothing => .took 0
      (answer, { bytes, limit, chunk, whenFull, interrupts, calls })
    else
      let taken := portion room chunk offered
      (.took taken.length,
        { bytes := bytes.appendList taken, limit, chunk, whenFull, interrupts, calls })

/-- After an interrupted call the next one is not interrupted. -/
theorem interruptsNext_of_write {s t : Sink} {bs : Bytes} (h : s.write bs = (.interrupted, t)) :
    s.interruptsNext = true ∧ t.interruptsNext = false := by
  unfold write at h
  cases hs : s.interruptsNext with
  | true =>
    obtain ⟨bytes, limit, chunk, whenFull, interrupts, calls⟩ := s
    simp only [hs, if_true, Prod.mk.injEq, true_and] at h
    subst h
    simp only [interruptsNext, Bool.and_eq_true, beq_iff_eq] at hs ⊢
    simp only [hs.1, Bool.true_and, true_and, beq_eq_false_iff_ne]
    omega
  | false =>
    simp only [hs, Bool.false_eq_true, if_false] at h
    split at h
    · split at h <;> simp at h
    · simp at h

/-- Offers bytes again and again until all are taken. A call that takes nothing fails. -/
def writeAll (s : Sink) (offered : Bytes) : Result Unit :=
  match offered with
  | [] => .ok () s
  | b :: bs =>
    match _taken : s.write (b :: bs) with
    | (.interrupted, t) => t.writeAll (b :: bs)
    | (.refused reason, t) => .error reason t
    | (.took 0, t) => .error "failed to write whole buffer" t
    | (.took (n + 1), t) => t.writeAll (bs.drop n)
  termination_by 2 * offered.length + s.interruptsNext.toNat
  decreasing_by
  · obtain ⟨hs, ht⟩ := interruptsNext_of_write _taken
    simp [hs, ht]
  · have ht := t.interruptsNext.toNat_le
    simp only [List.length_drop, List.length_cons]
    omega

instance : Writer Sink where
  writeAll offered s := s.writeAll offered

/-- A portion is a beginning of what was offered. -/
theorem portion_isPrefix (room chunk : Option Nat) (bs : Bytes) :
    portion room chunk bs <+: bs := by
  unfold portion
  cases room <;> cases chunk <;> simp only
  · exact List.prefix_refl bs
  · exact List.take_prefix _ _
  · exact List.take_prefix _ _
  · exact (List.take_prefix _ _).trans (List.take_prefix _ _)

/-- A call appends what it takes and keeps what was there. -/
theorem bytes_of_write {s t : Sink} {bs : Bytes} {a : Answer} (h : s.write bs = (a, t)) :
    t.bytes.toList = s.bytes.toList ++ bs.take a.taken := by
  obtain ⟨bytes, limit, chunk, whenFull, interrupts, calls⟩ := s
  unfold write at h
  dsimp only at h
  split at h
  · cases h
    simp [Answer.taken]
  · split at h
    · cases h
      cases whenFull <;> simp [Answer.taken]
    · cases h
      have hp := portion_isPrefix
        (room { bytes, limit, chunk, whenFull, interrupts, calls }) chunk bs
      rw [Answer.taken, ← List.prefix_iff_eq_take.1 hp]
      simp

/-- A write that succeeds appends exactly what was given. -/
theorem bytes_of_writeAll_ok {s t : Sink} {bs : Bytes} (h : s.writeAll bs = .ok () t) :
    t.bytes.toList = s.bytes.toList ++ bs := by
  fun_induction writeAll s bs with
  | case1 s =>
    cases h
    simp
  | case2 s b bs t' hw ih =>
    have hb := bytes_of_write hw
    rw [ih h, hb]
    simp [Answer.taken]
  | case3 | case4 => cases h
  | case5 s b bs n t' hw ih =>
    have hb := bytes_of_write hw
    rw [ih h, hb]
    simp [Answer.taken, List.append_assoc]

/-- A write that fails appends a strict beginning of what was given. -/
theorem bytes_of_writeAll_error {s t : Sink} {bs : Bytes} {reason : String}
    (h : s.writeAll bs = .error reason t) :
    ∃ k < bs.length, t.bytes.toList = s.bytes.toList ++ bs.take k := by
  fun_induction writeAll s bs with
  | case1 => cases h
  | case2 s b bs t' hw ih =>
    obtain ⟨k, hk, hbytes⟩ := ih h
    have hb := bytes_of_write hw
    refine ⟨k, hk, ?_⟩
    rw [hbytes, hb]
    simp [Answer.taken]
  | case3 s b bs reason' t' hw =>
    cases h
    exact ⟨0, by simp, by simpa [Answer.taken] using bytes_of_write hw⟩
  | case4 s b bs t' hw =>
    cases h
    exact ⟨0, by simp, by simpa [Answer.taken] using bytes_of_write hw⟩
  | case5 s b bs n t' hw ih =>
    obtain ⟨k, hk, hbytes⟩ := ih h
    have hb := bytes_of_write hw
    rw [List.length_drop] at hk
    refine ⟨n + 1 + k, by rw [List.length_cons]; omega, ?_⟩
    rw [hbytes, hb, List.append_assoc, Nat.add_right_comm n 1 k]
    simp [Answer.taken, List.take_add]

end Sink

end PackStream
