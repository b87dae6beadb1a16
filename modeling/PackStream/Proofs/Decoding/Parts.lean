import PackStream.Decoding.Bytes
import PackStream.Proofs.Decoding.Language
import PackStream.Proofs.Wire.Integer

/-!
# The reader in parts

A value is read as a marker and what the marker announces. Every number of bytes is checked for
right before it is taken, and there are four reasons for which what was taken is refused.

A property that holds of these parts and is kept where parts follow each other holds of the reader.
It may relate two readers, as does what becomes of the first when more bytes follow. Its `bound` is
a length that the input stays below: the marker of a value is gone when the values inside are read,
so they are read from shorter input.

Main statements: `Compositional.level` and `Compositional.nested`.
-/

set_option autoImplicit false

namespace PackStream.Reader

variable {α β : Type} {bound : Nat}

/-! ## Moving forward -/

/-- Whether a reader only moves forward. -/
def Advances (r : Reader α) : Prop :=
  ∀ c : Cursor, (r c).state.rest <:+ c.rest

theorem Advances.bind {r : Reader α} {k : α → Reader β} (hr : Advances r)
    (hk : ∀ a, Advances (k a)) : Advances (r >>= k) := by
  intro c
  have first := hr c
  rw [EStateM.bind_apply]
  cases done : r c with
  | error stop d =>
    rw [done] at first
    exact first
  | ok a d =>
    rw [done] at first
    exact (hk a d).trans first

theorem Advances.lt_of_ok {r : Reader α} (hr : Advances r) {c d : Cursor} {a : α}
    (h : c.rest.length < bound) (done : r c = .ok a d) : d.rest.length < bound := by
  have forward := hr c
  rw [done] at forward
  exact Nat.lt_of_le_of_lt forward.length_le h

theorem advances_need (n : Nat) : Advances (need n) := by
  intro c
  rw [need_apply]
  split <;> exact List.suffix_refl _

/-! ## Bytes that are checked for -/

/-- Whether a reader gets the same from any input that has `n` bytes, and leaves the others. It
begins no value and reports nothing. -/
structure Takes (n : Nat) (r : Reader α) : Prop where
  advances : Advances r
  ok (c : Cursor) (enough : n ≤ c.rest.length) :
    ∃ (a : α) (d : Cursor), r c = .ok a d ∧ d.begun = c.begun ∧ d.events = c.events ∧
      d.rest.length + n = c.rest.length ∧
      ∀ more, r { c with rest := c.rest ++ more } = .ok a { d with rest := d.rest ++ more }

theorem takes_take (n : Nat) : Takes n (take n) := by
  constructor
  · intro c
    obtain ⟨rest, begun, events⟩ := c
    simp only [take]
    split
    · exact List.drop_suffix n rest
    · exact List.suffix_refl rest
  · intro c enough
    obtain ⟨rest, begun, events⟩ := c
    refine ⟨rest.take n, { rest := rest.drop n, begun, events }, ?_, rfl, rfl, ?_, ?_⟩
    · exact if_pos (Bytes.hasAtLeast_iff.2 enough)
    · simp only [List.length_drop]
      exact Nat.sub_add_cancel enough
    · intro more
      have enough' : n ≤ (rest ++ more).length := by
        rw [List.length_append]
        exact Nat.le_add_right_of_le enough
      show (if (rest ++ more).hasAtLeast n then _ else _) = _
      rw [if_pos (Bytes.hasAtLeast_iff.2 enough'), List.take_append_of_le_length enough,
        List.drop_append_of_le_length enough]

theorem takes_byte : Takes 1 byte := by
  constructor
  · intro c
    obtain ⟨rest, begun, events⟩ := c
    cases rest with
    | nil => exact List.suffix_refl _
    | cons b rest => exact List.suffix_cons b rest
  · intro c enough
    obtain ⟨rest, begun, events⟩ := c
    cases rest with
    | nil => exact absurd enough (Nat.not_succ_le_zero 0)
    | cons b rest => exact ⟨b, { rest, begun, events }, rfl, rfl, rfl, rfl, fun more => rfl⟩

/-- Bytes that were checked for are there when they are taken. -/
theorem Takes.need_bind_apply {n : Nat} {r : Reader α} (takes : Takes n r) (k : α → Reader β)
    (c : Cursor) :
    (c.rest.length < n ∧ (need n >>= fun _ => r >>= k) c =
      .error (.refused (.unexpectedEof n c.rest.length)) c) ∨
    ∃ (a : α) (d : Cursor), d.begun = c.begun ∧ d.events = c.events ∧
      d.rest.length + n = c.rest.length ∧ (need n >>= fun _ => r >>= k) c = k a d := by
  rw [EStateM.bind_apply, need_apply]
  by_cases enough : n ≤ c.rest.length
  · obtain ⟨a, d, taken, begun, events, left, -⟩ := takes.ok c enough
    refine .inr ⟨a, d, begun, events, left, ?_⟩
    rw [if_pos enough]
    show (r >>= k) c = k a d
    rw [EStateM.bind_apply, taken]
  · rw [if_neg enough]
    exact .inl ⟨Nat.not_le.1 enough, rfl⟩

/-! ## One value -/

/-- Reads what a marker announces, with a reader for the values inside. -/
def announced (read : Reader Value) (marker : UInt8) : Reader Value :=
  match Marker.ofByte marker with
  | .null => pure .null
  | .boolean b => pure (.boolean b)
  | .float => return .float (← float)
  | .tinyInt i => pure (.integer i.toInt64)
  | .int width => return .integer (← integer width)
  | .string width => return .string (← text (← size width))
  | .list width => return .list (← repeated read (← size width) [])
  | .dict width => return .ofDict (← entries read (← size width) ∅)
  | .struct width => do
    let n ← size width
    need 1
    let signature ← byte
    return .struct signature (← repeated read n [])
  | .reserved => do
    report (.reservedMarker marker)
    refuse (.unknownMarker marker)

/-- Reads a marker and what it announces, with a reader for the values inside. -/
def level (read : Reader Value) : Reader Value := do
  begin
  need 1
  let marker ← byte
  announced read marker

theorem nested_succ (depth : Nat) : nested (depth + 1) = level (nested depth) := rfl

/-- A value is begun for every marker, and for a missing one before the failure. -/
theorem begin_apply (k : UInt8 → Reader α) (c : Cursor) :
    (begin >>= fun _ => need 1 >>= fun _ => byte >>= k) c =
      match c with
      | { rest := [], begun, events } =>
        .error (.refused (.unexpectedEof 1 0)) { rest := [], begun := begun + 1, events }
      | { rest := marker :: rest, begun, events } =>
        k marker { rest, begun := begun + 1, events } := by
  obtain ⟨rest, begun, events⟩ := c
  cases rest <;> rfl

theorem advances_begin {k : UInt8 → Reader α} (hk : ∀ marker, Advances (k marker)) :
    Advances (begin >>= fun _ => need 1 >>= fun _ => byte >>= k) := by
  intro c
  rw [begin_apply]
  obtain ⟨_ | ⟨marker, rest⟩, begun, events⟩ := c
  · exact List.suffix_refl []
  · exact (hk marker _).trans (List.suffix_cons marker rest)

theorem ofBytes_eq (bs : Bytes) :
    Value.ofBytes bs = match value { rest := bs } with
      | .ok v d =>
        if d.rest.isEmpty then .ok v else .error (.refused (.trailingBytes d.rest.length))
      | .error stop _ => .error stop := by
  unfold Value.ofBytes Value.decoded wholeValue
  rw [EStateM.bind_apply]
  cases value { rest := bs } with
  | error stop d => rfl
  | ok v d =>
    obtain ⟨rest, begun, events⟩ := d
    cases rest <;> rfl

/-! ## Properties that follow the parts -/

/-- A property of two readers, on input shorter than a bound, that holds of the parts of the reader
and is kept where parts follow each other. -/
structure Compositional
    (P : {α : Type} → (bound : Nat) → Reader α → Reader α → Prop) : Prop where
  pure {α : Type} {bound : Nat} (a : α) : P bound (pure a) (pure a)
  bind {α β : Type} {bound : Nat} {r r' : Reader α} {k k' : α → Reader β} (first : P bound r r')
    (next : ∀ a, P bound (k a) (k' a)) : P bound (r >>= k) (r' >>= k')
  reads {α β : Type} {bound n : Nat} {r : Reader α} {k k' : α → Reader β} (takes : Takes n r)
    (next : ∀ a, P bound (k a) (k' a)) :
    P bound (need n >>= fun _ => r >>= k) (need n >>= fun _ => r >>= k')
  /-- The marker counts as a value begun, and shortens the input. -/
  marker {α : Type} {bound : Nat} {k k' : UInt8 → Reader α} (next : ∀ b, P bound (k b) (k' b)) :
    P (bound + 1) (begin >>= fun _ => need 1 >>= fun _ => byte >>= k)
      (begin >>= fun _ => need 1 >>= fun _ => byte >>= k')
  invalidUtf8 {bound : Nat} (fault : Utf8.Fault) :
    P bound (refuse (.invalidUtf8 fault) : Reader String) (refuse (.invalidUtf8 fault))
  nonStringKey {bound : Nat} (kind : Kind) :
    P bound (refuse (.nonStringKey kind) : Reader String) (refuse (.nonStringKey kind))
  duplicateKey {bound : Nat} (key : String) :
    P bound (refuse (.duplicateKey key) : Reader String) (refuse (.duplicateKey key))
  reserved {bound : Nat} (marker : UInt8) :
    P bound
      (report (.reservedMarker marker) >>= fun _ => refuse (.unknownMarker marker) : Reader Value)
      (report (.reservedMarker marker) >>= fun _ => refuse (.unknownMarker marker))
  /-- No input is shorter than nothing. -/
  zero {α : Type} {r r' : Reader α} (forward : Advances r) (forward' : Advances r') : P 0 r r'

namespace Compositional

variable {P : {α : Type} → (bound : Nat) → Reader α → Reader α → Prop} (law : Compositional P)

include law

theorem field (n : Nat) (f : Bytes → α) :
    P bound (do need n; return f (← take n)) (do need n; return f (← take n)) :=
  law.reads (takes_take n) fun bs => law.pure (f bs)

theorem size (width : SizeClass) : P bound (size width) (size width) := by
  cases width with
  | tiny n =>
    have nothing : Takes 0 (Pure.pure () : Reader Unit) :=
      ⟨fun _ => List.suffix_refl _, fun c _ => ⟨(), c, rfl, rfl, rfl, rfl, fun _ => rfl⟩⟩
    exact law.reads nothing fun _ => law.pure n.toNat
  | size8 => exact law.field 1 Bytes.ofBigEndian
  | size16 => exact law.field 2 Bytes.ofBigEndian
  | size32 => exact law.field 4 Bytes.ofBigEndian

/-- Only a width that has a marker of its own comes up. -/
theorem integer {width : IntWidth} (wide : width ≠ .tiny) :
    P bound (integer width) (integer width) := by
  cases width with
  | tiny => exact absurd rfl wide
  | int8 => exact law.field 1 ofTwosComplement
  | int16 => exact law.field 2 ofTwosComplement
  | int32 => exact law.field 4 ofTwosComplement
  | int64 => exact law.field 8 ofTwosComplement

theorem float : P bound float float :=
  law.field 8 fun bs => (⟨UInt64.ofNat (Bytes.ofBigEndian bs)⟩ : Binary64)

theorem text (n : Nat) : P bound (text n) (text n) := by
  refine law.reads (takes_take n) fun bs => ?_
  cases Utf8.decode bs with
  | ok s => exact law.pure s
  | error fault => exact law.invalidUtf8 fault

section

variable {read read' : Reader Value} (inside : P bound read read')

include inside

theorem repeated (n : Nat) (done : List Value) :
    P bound (repeated read n done) (repeated read' n done) := by
  induction n generalizing done with
  | zero => exact law.pure done.reverse
  | succ n ih => exact law.bind inside fun v => ih (v :: done)

theorem key (seen : Dict) : P bound (key read seen) (key read' seen) := by
  refine law.bind inside fun v => ?_
  cases v with
  | string s =>
    show P bound (if seen.contains s then _ else _) (if seen.contains s then _ else _)
    split
    · exact law.duplicateKey s
    · exact law.pure s
  | null | boolean | integer | float | list | dict | struct => exact law.nonStringKey _

theorem entries (n : Nat) (dict : Dict) :
    P bound (entries read n dict) (entries read' n dict) := by
  induction n generalizing dict with
  | zero => exact law.pure dict
  | succ n ih =>
    exact law.bind (law.key inside dict) fun k => law.bind inside fun v => ih (dict.insert k v)

theorem announced (marker : UInt8) :
    P bound (announced read marker) (announced read' marker) := by
  unfold Reader.announced
  cases what : Marker.ofByte marker with
  | null => exact law.pure _
  | boolean b => exact law.pure _
  | float => exact law.bind law.float fun x => law.pure _
  | tinyInt i => exact law.pure _
  | int width =>
    have wide : width ≠ .tiny := by
      rintro rfl
      cases IntWidth.ofByte_eq_int_iff.1 what
    exact law.bind (law.integer wide) fun i => law.pure _
  | string width =>
    exact law.bind (law.size width) fun n => law.bind (law.text n) fun s => law.pure _
  | list width =>
    exact law.bind (law.size width) fun n =>
      law.bind (law.repeated inside n []) fun items => law.pure _
  | dict width =>
    exact law.bind (law.size width) fun n =>
      law.bind (law.entries inside n ∅) fun dict => law.pure _
  | struct width =>
    refine law.bind (law.size width) fun n => law.reads takes_byte fun signature => ?_
    exact law.bind (law.repeated inside n []) fun fields => law.pure _
  | reserved => exact law.reserved marker

/-- If the values inside are read with a property, the value is, too, from input that is longer by
the marker. -/
theorem level : P (bound + 1) (level read) (level read') :=
  law.marker fun marker => law.announced inside marker

end

/-- The depth is a bound on the input, too, since every level takes a marker. -/
theorem nested_self (depth : Nat) : P depth (nested depth) (nested depth) := by
  induction depth with
  | zero =>
    have still : Advances (Reader.nested 0) := fun _ => List.suffix_refl _
    exact law.zero still still
  | succ depth ih =>
    rw [nested_succ]
    exact law.level ih

end Compositional

/-- Moving forward follows the parts. -/
theorem compositional_advances : Compositional fun _ r _ => Advances r where
  pure _ _ := List.suffix_refl _
  bind first next := first.bind next
  reads takes next := (advances_need _).bind fun _ => takes.advances.bind next
  marker := advances_begin
  invalidUtf8 _ _ := List.suffix_refl _
  nonStringKey _ _ := List.suffix_refl _
  duplicateKey _ _ := List.suffix_refl _
  reserved _ _ := List.suffix_refl _
  zero forward _ := forward

theorem advances_nested (depth : Nat) : Advances (nested depth) :=
  compositional_advances.nested_self depth

theorem advances_value : Advances value :=
  fun c => advances_nested (c.rest.length + 1) c

/-- With more levels at hand, values inside the first ones are read with the same property. -/
theorem Compositional.nested {P : {α : Type} → (bound : Nat) → Reader α → Reader α → Prop}
    (law : Compositional P) {depth depth' : Nat} (le : depth ≤ depth') :
    P depth (nested depth) (nested depth') := by
  induction depth generalizing depth' with
  | zero => exact law.zero (advances_nested 0) (advances_nested depth')
  | succ depth ih =>
    cases depth' with
    | zero => exact absurd le (Nat.not_succ_le_zero depth)
    | succ depth' =>
      rw [nested_succ, nested_succ]
      exact law.level (ih (Nat.le_of_succ_le_succ le))

end PackStream.Reader
