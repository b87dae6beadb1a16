import PackStream.Proofs.Decoding.Parts

/-!
# What readers report

A reader reports a reserved marker in the same breath as it refuses it, and no part of it reports
anything else. The report is therefore settled by what reading comes to, wherever in the value the
marker stands.

Main statements: `events_value` and `events_decoded`.
-/

set_option autoImplicit false

namespace PackStream

/-- What is reported of a reason to stop: the marker, if it was a reserved one. -/
def Stop.reports : Stop → Array Event
  | .refused (.unknownMarker marker) => #[.reservedMarker marker]
  | _ => #[]

namespace Reader

variable {α β : Type} {bound : Nat}

/-- What is reported of an outcome. -/
def reports : Except Stop α → Array Event
  | .ok _ => #[]
  | .error stop => stop.reports

theorem level_of_mem_reports {outcome : Except Stop α} {event : Event}
    (mem : event ∈ reports outcome) : event.level = .trace := by
  unfold reports Stop.reports at mem
  split at mem
  · cases Array.not_mem_empty event mem
  · split at mem
    · rw [Array.mem_singleton.1 mem]
      rfl
    · cases Array.not_mem_empty event mem

/-- Whether a reader, on input shorter than `bound`, adds to the events what is to be reported of
its outcome, and nothing else. -/
structure Candid (bound : Nat) (r : Reader α) : Prop where
  advances : Advances r
  events (c : Cursor) (h : c.rest.length < bound) :
    (r c).state.events = c.events ++ reports (r c).outcome

theorem candid_pure (a : α) : Candid bound (pure a) :=
  ⟨fun _ => List.suffix_refl _, fun _ _ => Array.append_empty.symm⟩

theorem candid_refuse {error : DecodeError} (other : ∀ marker, error ≠ .unknownMarker marker) :
    Candid bound (refuse error : Reader α) := by
  refine ⟨fun _ => List.suffix_refl _, ?_⟩
  intro c _
  have silent : (Stop.refused error).reports = #[] := by
    cases error with
    | unknownMarker marker => exact absurd rfl (other marker)
    | _ => rfl
  show c.events = c.events ++ (Stop.refused error).reports
  rw [silent, Array.append_empty]

/-- If the first reader ends well, it has reported nothing. -/
theorem Candid.bind {r : Reader α} {k : α → Reader β} (hr : Candid bound r)
    (hk : ∀ a, Candid bound (k a)) : Candid bound (r >>= k) := by
  refine ⟨hr.advances.bind fun a => (hk a).advances, ?_⟩
  intro c h
  have first := hr.events c h
  rw [EStateM.bind_apply]
  cases done : r c with
  | error stop d =>
    rw [done] at first
    exact first
  | ok a d =>
    rw [done] at first
    have silent : d.events = c.events := first.trans Array.append_empty
    rw [← silent]
    exact (hk a).events d (hr.advances.lt_of_ok h done)

theorem candid_reads {n : Nat} {r : Reader α} {k : α → Reader β} (takes : Takes n r)
    (hk : ∀ a, Candid bound (k a)) : Candid bound (need n >>= fun _ => r >>= k) := by
  refine ⟨(advances_need n).bind fun _ => takes.advances.bind fun a => (hk a).advances, ?_⟩
  intro c h
  obtain ⟨-, short⟩ | ⟨a, d, -, silent, left, same⟩ := takes.need_bind_apply k c
  · rw [short]
    exact Array.append_empty.symm
  · rw [same, ← silent]
    exact (hk a).events d (by omega)

theorem candid_begin {k : UInt8 → Reader α} (hk : ∀ marker, Candid bound (k marker)) :
    Candid (bound + 1) (begin >>= fun _ => need 1 >>= fun _ => byte >>= k) := by
  refine ⟨advances_begin fun marker => (hk marker).advances, ?_⟩
  intro c h
  rw [begin_apply]
  obtain ⟨_ | ⟨marker, rest⟩, begun, events⟩ := c
  · exact Array.append_empty.symm
  · exact (hk marker).events _ (Nat.lt_of_succ_lt_succ h)

theorem candid_reserved (marker : UInt8) :
    Candid bound (do report (.reservedMarker marker); refuse (.unknownMarker marker) :
      Reader α) := by
  refine ⟨fun _ => List.suffix_refl _, ?_⟩
  intro c _
  exact Array.push_eq_append

/-- Reporting what is refused follows the parts of the reader. -/
theorem compositional_candid : Compositional fun bound r _ => Candid bound r where
  pure := candid_pure
  bind := Candid.bind
  reads := candid_reads
  marker := candid_begin
  invalidUtf8 _ := candid_refuse nofun
  nonStringKey _ := candid_refuse nofun
  duplicateKey _ := candid_refuse nofun
  reserved := candid_reserved
  zero forward _ := ⟨forward, fun _ none => absurd none (Nat.not_lt_zero _)⟩

theorem candid_nested (depth : Nat) : Candid depth (nested depth) :=
  compositional_candid.nested_self depth

theorem events_value (c : Cursor) :
    (value c).state.events = c.events ++ reports (value c).outcome :=
  (candid_nested (c.rest.length + 1)).events c (Nat.lt_succ_self _)

/-- A reserved marker in a list in a list. -/
example : (value { rest := [0x91, 0x91, 0xC4] }).state.events = #[.reservedMarker 0xC4] := rfl

/-- That bytes follow the value is not reported. -/
theorem events_decoded (bs : Bytes) :
    (Value.decoded bs).state.events = reports (Value.ofBytes bs) := by
  have inner := events_value { rest := bs }
  rw [Array.empty_append] at inner
  unfold Value.ofBytes Value.decoded wholeValue
  rw [EStateM.bind_apply]
  cases done : value { rest := bs } with
  | error stop d =>
    rw [done] at inner
    exact inner
  | ok v d =>
    rw [done] at inner
    obtain ⟨rest, begun, events⟩ := d
    cases rest <;> exact inner

end Reader

end PackStream
