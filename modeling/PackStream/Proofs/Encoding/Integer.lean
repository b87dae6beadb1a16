import PackStream.Proofs.Decoding.Acceptance
import PackStream.Proofs.Encoding.Reference

/-!
# Integers, written and read

An integer is written as the last bytes of its 64-bit word, as few of them as still hold it, after
a marker that tells how many they are. A reader gets the integer back from these bytes, and from
others only if they are more.

Main statement: `Encoder.encodeInt_unique_shortest`.
-/

set_option autoImplicit false

namespace PackStream.Encoder

/-- On a steady sink with room for it, an integer is written in its narrowest width. -/
theorem encodeInt_of_fits {i : Int64} {e : Encoder} (steady : e.sink.Steady)
    (fits : e.sink.Fits (Reference.integer i.toInt).length) :
    ∃ d : Encoder, encodeInt i e = .ok () d ∧
      d.sink.bytes.toList = e.sink.bytes.toList ++ Reference.integer i.toInt ∧
      d.written = e.written + (Reference.integer i.toInt).length := by
  have complete : Script.refusal? (Script.integer #[] i).toList = none :=
    Script.refusal?_value e.options e.depth (.integer i)
  rw [← Script.output_integer] at fits ⊢
  exact run_of_fits steady complete fits

/-- Of an integer, the last bytes of its 64-bit word are written, in the narrowest width that holds
it: as they are if it is its own marker, and otherwise after the marker of the width. Whatever
follows them, they are read as the integer, and nothing of what follows is. Any other byte string
that is read as the integer is longer. -/
theorem encodeInt_unique_shortest (i : Int64) :
    ∃ (width : IntWidth) (bytes : Bytes), width.Narrowest i.toInt ∧
      (bytes = match width.marker? with
        | none => (Bytes.bigEndian 8 i.toUInt64.toNat).drop 7
        | some marker =>
          marker :: (Bytes.bigEndian 8 i.toUInt64.toNat).drop (8 - width.payloadWidth)) ∧
      (∀ e : Encoder, e.sink.Steady → e.sink.Fits bytes.length →
        ∃ d : Encoder, encodeInt i e = .ok () d ∧
          d.sink.bytes.toList = e.sink.bytes.toList ++ bytes ∧
          d.written = e.written + bytes.length) ∧
      (∀ rest begun events, ∃ d,
        Reader.value { rest := bytes ++ rest, begun, events } = .ok (.integer i) d ∧
          d.rest = rest) ∧
      Value.ofBytes bytes = .ok (.integer i) ∧
      ∀ w, Value.ofBytes w = .ok (.integer i) → w ≠ bytes → bytes.length < w.length := by
  have narrowest := IntWidth.narrowest_ofInt i
  have written := Reference.integer_eq_bytes i.toInt
  have form : Wire (.integer i) (Reference.integer i.toInt) :=
    .integer (integerForm_iff.2 ⟨_, narrowest.holds, written⟩)
  refine ⟨_, Reference.integer i.toInt, narrowest, written.trans (IntWidth.bytes_eq_drop _ i),
    ?_, ?_, ?_, ?_⟩
  · exact fun _ => encodeInt_of_fits
  · exact Reader.value_of_wire form
  · exact Reader.ofBytes_eq_ok_iff.2 form
  · intro w read other
    cases Reader.ofBytes_eq_ok_iff.1 read with
    | integer form' =>
      rw [written] at other ⊢
      obtain same | longer := form'.eq_or_length_lt
      · exact absurd same other
      · exact longer

/-- The least integer above the tiny ones, which 8 bits do not hold, on a sink that takes a byte in
every other call. -/
theorem encodeInt_unique_shortest_above :
    let e : Encoder := { sink := { limit := some 3, chunk := some 1, interrupts := true } }
    let narrow : Bytes := [0xC9, 0x00, 0x80]
    let wide : Bytes := [0xCA, 0x00, 0x00, 0x00, 0x80]
    e.sink.Steady ∧ e.sink.Fits narrow.length ∧
      (∃ d : Encoder, encodeInt 128 e = .ok () d ∧ d.sink.bytes.toList = narrow ∧
        d.written = 3) ∧
      (∃ d, Reader.value { rest := narrow ++ [0xFF] } = .ok (.integer 128) d ∧
        d.rest = [0xFF]) ∧
      Value.ofBytes wide = .ok (.integer 128) ∧ wide ≠ narrow ∧ narrow.length < wide.length := by
  intro e narrow wide
  have steady : e.sink.Steady := nofun
  have fits : e.sink.Fits narrow.length := by
    intro r room
    cases room
    exact Nat.le_refl 3
  have accepted : Value.ofBytes wide = .ok (.integer 128) :=
    Reader.ofBytes_eq_ok_iff.2 (.integer (.int32 (by decide)))
  have other : wide ≠ narrow := by decide
  obtain ⟨width, bytes, narrowest, form, written, read, -, shortest⟩ :=
    encodeInt_unique_shortest 128
  obtain rfl : width = .int16 := narrowest.unique (.inr ⟨by decide, by decide⟩)
  obtain rfl : bytes = narrow := form.trans (by decide)
  exact ⟨steady, fits, written e steady fits, read [0xFF] 0 #[], accepted, other,
    shortest wide accepted other⟩

end PackStream.Encoder
