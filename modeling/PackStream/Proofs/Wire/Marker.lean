import PackStream.Wire.Marker

/-!
# The marker table read backwards

`Marker.byte?` gives the byte that announces a marker. Main statement: `ofByte_eq_iff`, a byte
announces a marker exactly if it is that byte, so no two markers share one.
-/

set_option autoImplicit false

namespace PackStream

/-- A statement about all bytes can be decided byte by byte. -/
instance decidableForallByte {P : UInt8 → Prop} [DecidablePred P] : Decidable (∀ b, P b) :=
  decidable_of_iff (∀ n : Fin 256, P (UInt8.ofNat n))
    ⟨fun h b => by simpa using h ⟨b.toNat, b.toNat_lt⟩, fun h _ => h _⟩

/-- Whether a class can stand in a marker byte, which has four bits for a tiny size. -/
def SizeClass.InMarker : SizeClass → Prop
  | .tiny m => m ≤ 15
  | _ => True

instance : DecidablePred SizeClass.InMarker := fun width =>
  match width with
  | .tiny m => inferInstanceAs (Decidable (m ≤ 15))
  | .size8 | .size16 | .size32 => .isTrue trivial

/-- The byte of a family for a class, if the class can stand in a marker and the family has it. -/
def MarkerFamily.byte? (f : MarkerFamily) (width : SizeClass) : Option UInt8 :=
  if width.InMarker then f.marker? width else none

namespace Marker

/-- The byte that announces a marker. -/
def byte? : Marker → Option UInt8
  | .null => some 0xC0
  | .boolean b => some (if b then 0xC3 else 0xC2)
  | .float => some 0xC1
  | .tinyInt i => if -16 ≤ i then some i.toUInt8 else none
  | .int width => width.marker?
  | .string width => MarkerFamily.string.byte? width
  | .list width => MarkerFamily.list.byte? width
  | .dict width => MarkerFamily.dict.byte? width
  | .struct width => MarkerFamily.struct.byte? width
  | .reserved => none

/-- A byte that is not reserved is the byte of what it announces. -/
theorem byte?_ofByte : ∀ b, ofByte b = .reserved ∨ (ofByte b).byte? = some b := by
  decide +kernel

/-- The markers of a family announce their class, whatever constructor `m` that class is put
under in the table. -/
theorem ofByte_of_family {f : MarkerFamily} {m : SizeClass → Marker} {width : SizeClass}
    {b : UInt8} (h : f.byte? width = some b)
    (tiny : ∀ n : Fin 16, (f.marker? (.tiny (UInt8.ofNat n))).map ofByte =
      some (m (.tiny (UInt8.ofNat n))))
    (size8 : ofByte f.size8 = m .size8) (size16 : ofByte f.size16 = m .size16)
    (size32 : f.size32.map ofByte = f.size32.map fun _ => m .size32) : ofByte b = m width := by
  unfold MarkerFamily.byte? at h
  split at h
  · rename_i inMarker
    cases width with
    | tiny k =>
      have small : k.toNat < 16 := Nat.lt_succ_of_le (UInt8.le_iff_toNat_le.1 inMarker)
      simpa [h] using tiny ⟨k.toNat, small⟩
    | size8 =>
      cases h
      exact size8
    | size16 =>
      cases h
      exact size16
    | size32 =>
      rw [show f.size32 = some b from h] at size32
      exact Option.some.inj size32
  · cases h

/-- The byte of a marker announces it. -/
theorem ofByte_of_byte? {m : Marker} {b : UInt8} (h : m.byte? = some b) : ofByte b = m := by
  cases m with
  | null | float =>
    cases h
    rfl
  | boolean x =>
    cases h
    cases x <;> rfl
  | tinyInt i =>
    have all : ∀ b : UInt8, -16 ≤ b.toInt8 → ofByte b = .tinyInt b.toInt8 := by decide +kernel
    simp only [byte?] at h
    split at h
    · rename_i hi
      cases h
      simpa using all i.toUInt8 (by simpa using hi)
    · cases h
  | int width => cases width <;> cases h <;> rfl
  | string width => exact ofByte_of_family h (by decide +kernel) rfl rfl rfl
  | list width => exact ofByte_of_family h (by decide +kernel) rfl rfl rfl
  | dict width => exact ofByte_of_family h (by decide +kernel) rfl rfl rfl
  | struct width => exact ofByte_of_family h (by decide +kernel) rfl rfl rfl
  | reserved => cases h

/-- A byte announces a marker exactly if it is the byte of that marker. -/
theorem ofByte_eq_iff {m : Marker} {b : UInt8} (h : m ≠ .reserved) :
    ofByte b = m ↔ m.byte? = some b := by
  refine ⟨?_, ?_⟩
  · rintro rfl
    exact (byte?_ofByte b).resolve_left h
  · exact ofByte_of_byte?

end Marker

end PackStream
