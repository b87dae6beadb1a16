import PackStream.Proofs.Decoding.Language
import PackStream.Proofs.Encoding.Form
import PackStream.Proofs.Encoding.Offence

/-!
# Size headers, written and read

A size is refused exactly where it is above the largest that its family can announce, and then
nothing is written. Up to there the header tells a reader both the category and the size: its first
byte announces the category and a class, and what follows is the size in the width of that class.

Main statement: `Encoder.header_announces_size`.
-/

set_option autoImplicit false

namespace PackStream

/-! ## Reading a size -/

namespace Reader

/-- A word that the input begins with is read, and nothing of what follows. -/
theorem word_apply {k n : Nat} (lt : n < Bytes.modulus k) (c : Cursor) :
    (do need k; return Bytes.ofBigEndian (← take k) : Reader Nat)
      { c with rest := Bytes.bigEndian k n ++ c.rest } = .ok n c := by
  have length : (Bytes.bigEndian k n).length = k := Bytes.length_bigEndian k n
  have enough : k ≤ (Bytes.bigEndian k n ++ c.rest).length := by
    rw [List.length_append, length]
    exact Nat.le_add_right k _
  have there : (Bytes.bigEndian k n ++ c.rest).hasAtLeast k := Bytes.hasAtLeast_iff.2 enough
  rw [EStateM.bind_apply, need_apply, if_pos enough]
  dsimp only
  rw [EStateM.bind_apply, take, if_pos there, List.take_left' length, List.drop_left' length]
  show EStateM.Result.ok (Bytes.ofBigEndian (Bytes.bigEndian k n)) c = .ok n c
  rw [Bytes.ofBigEndian_bigEndian, Nat.mod_eq_of_lt lt]

/-- A size that its class holds is read back from the field that it is written in. -/
theorem size_apply {width : SizeClass} {n : Nat} (holds : width.Holds n) (c : Cursor) :
    size width { c with rest := Bytes.bigEndian width.prefixWidth n ++ c.rest } = .ok n c := by
  cases width with
  | tiny m =>
    obtain ⟨small, rfl⟩ := holds
    have same : (UInt8.ofNat n).toNat = n := by
      rw [UInt8.toNat_ofNat']
      omega
    show EStateM.Result.ok (UInt8.ofNat n).toNat c = .ok n c
    rw [same]
  | size8 => exact word_apply (k := 1) holds c
  | size16 => exact word_apply (k := 2) holds c
  | size32 => exact word_apply (k := 4) holds c

end Reader

/-! ## Categories do not share markers -/

theorem Category.marker_inj {c other : Category} {width size : SizeClass}
    (h : c.marker width = other.marker size) : other = c ∧ size = width := by
  cases c <;> cases other <;> cases h <;> exact ⟨rfl, rfl⟩

/-! ## Writing a header -/

namespace Encoder

/-- Whether the header of a size is refused depends on the family alone. -/
theorem header_eq_error_iff {σ : Type} [Writer σ] (e : Encoder σ) (f : MarkerFamily) (n : Nat) :
    let header : EncodeOn σ Unit := run fun options script => script.header options f n
    let overflow : EncodeError := .lengthOverflow f.name n f.maxSize
    ((header e).outcome = .error overflow ↔ f.maxSize < n) ∧
      (f.maxSize < n → header e = .error overflow e) := by
  intro header overflow
  have steps : header e = performAll (Script.header #[] e.options f n).toList e :=
    carriesOut_run _ e
  have refused : f.maxSize < n → header e = .error overflow e := by
    intro large
    rw [steps, Script.steps_header_of_not_fits e.options large]
    rfl
  refine ⟨⟨?_, ?_⟩, refused⟩
  · intro failed
    rw [steps] at failed
    cases run : performAll (Script.header #[] e.options f n).toList e with
    | ok u d =>
      rw [run] at failed
      cases failed
    | error error d =>
      rw [run] at failed
      cases failed
      -- A sink fails with an error of its own, so a step of the header refused.
      obtain ⟨reason, sink⟩ | refusal := performAll_error_cases run
      · change EncodeError.lengthOverflow _ _ _ = _ at sink
        cases sink
      · rw [Script.refusal?_header] at refusal
        by_cases large : f.maxSize < n
        · exact large
        · rw [if_neg large] at refusal
          cases refusal
  · intro large
    rw [refused large]
    rfl

/-- In the standard form a size that its category can announce is written as the marker of its
narrowest class and the size in that class. -/
theorem header_of_narrowest {e : Encoder} (full : e.options.lengths = .full)
    (steady : e.sink.Steady) {c : Category} {n : Nat} {width : SizeClass} {b : UInt8}
    (narrowest : width.Narrowest n) (present : c.family.marker? width = some b)
    (fits : e.sink.Fits (b :: Bytes.bigEndian width.prefixWidth n).length) :
    ∃ d : Encoder, run (fun options script => script.header options c.family n) e = .ok () d ∧
      d.sink.bytes.toList =
        e.sink.bytes.toList ++ b :: Bytes.bigEndian width.prefixWidth n ∧
      d.written = e.written + (b :: Bytes.bigEndian width.prefixWidth n).length := by
  obtain ⟨complete, output⟩ :=
    Script.header_of_fits e.options (MarkerFamily.le_maxSize narrowest.holds present)
  rw [full, Reference.header_full c narrowest present] at output
  rw [← output] at fits ⊢
  exact run_of_fits steady complete fits

/-- On any writer, the header of a size is refused if and only if the size is above the largest that
the family, whichever it is, can announce, and then the encoder stays as it was. In the standard
form every smaller size of one of the four categories is written as a byte that announces this
category in a class, and no other, and a field from which a reader gets the size for that class,
whatever follows, leaving what follows. -/
theorem header_announces_size :
    (∀ {σ : Type} [Writer σ] (e : Encoder σ) (f : MarkerFamily) (n : Nat),
      let header : EncodeOn σ Unit := run fun options script => script.header options f n
      let overflow : EncodeError := .lengthOverflow f.name n f.maxSize
      ((header e).outcome = .error overflow ↔ f.maxSize < n) ∧
        (f.maxSize < n → header e = .error overflow e)) ∧
    ∀ (c : Category) (n : Nat), n ≤ c.family.maxSize →
      ∃ (b : UInt8) (field : Bytes) (width : SizeClass),
        (∀ e : Encoder, e.options.lengths = .full → e.sink.Steady →
          e.sink.Fits (b :: field).length →
          ∃ d : Encoder,
            run (fun options script => script.header options c.family n) e = .ok () d ∧
            d.sink.bytes.toList = e.sink.bytes.toList ++ b :: field ∧
            d.written = e.written + (b :: field).length) ∧
        (∀ other size, Marker.ofByte b = other.marker size ↔ other = c ∧ size = width) ∧
        ∀ rest begun events, Reader.size width { rest := field ++ rest, begun, events } =
          .ok n { rest, begun, events } := by
  refine ⟨fun e f n => header_eq_error_iff e f n, ?_⟩
  intro c n fits
  obtain ⟨width, b, narrowest, present⟩ := c.family.exists_narrowest fits
  have announced : Marker.ofByte b = c.marker width :=
    Category.ofByte_of_marker? narrowest.holds present
  refine ⟨b, Bytes.bigEndian width.prefixWidth n, width, ?_, ?_, ?_⟩
  · intro e full steady room
    exact header_of_narrowest full steady narrowest present room
  · intro other size
    constructor
    · intro same
      exact Category.marker_inj (announced.symm.trans same)
    · rintro ⟨rfl, rfl⟩
      exact announced
  · intro rest begun events
    exact Reader.size_apply narrowest.holds { rest, begun, events }

/-- A family of its own whose sizes end at 16 bits, and a dictionary of 300 entries on a sink that
takes a byte in every other call. -/
theorem header_announces_size_dict :
    let custom : MarkerFamily := ⟨"custom", 0xE0, 0xE1, 0xE2, none⟩
    let e : Encoder := { sink := { chunk := some 1, interrupts := true } }
    custom.maxSize < 65536 ∧
      run (fun options script => script.header options custom 65536) e =
        .error (.lengthOverflow "custom" 65536 65535) e ∧
      300 ≤ MarkerFamily.dict.maxSize ∧
      (∃ d : Encoder, run (fun options script => script.header options .dict 300) e = .ok () d ∧
        d.sink.bytes.toList = [0xD9, 0x01, 0x2C] ∧ d.written = 3) ∧
      Marker.ofByte 0xD9 = .dict .size16 ∧
      Reader.size .size16 { rest := [0x01, 0x2C, 0xFF] } = .ok 300 { rest := [0xFF] } := by
  intro custom e
  obtain ⟨refusal, headers⟩ := header_announces_size
  have fits : 300 ≤ Category.dict.family.maxSize := by decide
  obtain ⟨b, field, width, written, announces, read⟩ := headers .dict 300 fits
  have takesAll : e.sink.TakesAll := ⟨rfl, nofun⟩
  obtain ⟨d, done, bytes, count⟩ := written e rfl takesAll.2 (takesAll.fits _)
  have known : d.sink.bytes.toList = [0xD9, 0x01, 0x2C] := by
    have narrowest : SizeClass.size16.Narrowest 300 := ⟨by decide, by decide⟩
    have present : Category.dict.family.marker? .size16 = some 0xD9 := rfl
    obtain ⟨d', done', bytes', -⟩ :=
      header_of_narrowest (e := e) rfl takesAll.2 narrowest present (takesAll.fits _)
    cases done.symm.trans done'
    exact bytes'
  cases bytes.symm.trans known
  have announced : Marker.ofByte 0xD9 = .dict .size16 := by decide
  obtain ⟨-, rfl⟩ := (announces .dict .size16).1 announced
  have large : custom.maxSize < 65536 := by decide
  exact ⟨large, (refusal e custom 65536).2 large, fits, ⟨d, done, known, count⟩, announced,
    read [0xFF] 0 #[]⟩

end Encoder

end PackStream
