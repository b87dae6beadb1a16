import PackStream.Bytes

/-!
# UTF-8 text and the place where it breaks

`Utf8.encode` and `Utf8.decode` pass between text and its bytes. Bytes that are no text are
refused with the first fault: how many bytes before it are valid, and how long the bad sequence
is, or that the input ends inside a sequence that is valid so far.

Main statement: `decode_eq_ok_iff`, reading accepts exactly what writing produces.
-/

set_option autoImplicit false

namespace PackStream.Utf8

/-- The bytes of a text. -/
def encode (s : String) : Bytes :=
  s.toByteArray.data.toList

/-- The first place where bytes stop being text. -/
structure Fault where
  /-- Length of the longest valid beginning. -/
  validUpTo : Nat
  /-- Length of the bad sequence after it, or `none` if the input ends inside a sequence. -/
  badLength : Option Nat
  deriving DecidableEq

/-- The wording of a fault. -/
def Fault.message (f : Fault) : String :=
  match f.badLength with
  | some n => s!"invalid utf-8 sequence of {n} bytes from index {f.validUpTo}"
  | none => s!"incomplete utf-8 byte sequence from index {f.validUpTo}"

/-- An inclusive range of bytes. -/
structure ByteRange where
  first : UInt8
  last : UInt8

/-- Whether a byte lies in a range. -/
def ByteRange.contains (r : ByteRange) (b : UInt8) : Bool :=
  r.first ≤ b && b ≤ r.last

/-- Any continuation byte. -/
def continuation : ByteRange := ⟨0x80, 0xBF⟩

/-- The ranges of the bytes that have to follow a leading byte. The second byte is restricted
where overlong forms, surrogates or code points past U+10FFFF would begin. -/
def following (lead : UInt8) : Option (List ByteRange) :=
  if lead < 0x80 then some []
  else if lead < 0xC2 then none
  else if lead < 0xE0 then some [continuation]
  else if lead = 0xE0 then some [⟨0xA0, 0xBF⟩, continuation]
  else if lead = 0xED then some [⟨0x80, 0x9F⟩, continuation]
  else if lead < 0xF0 then some [continuation, continuation]
  else if lead = 0xF0 then some [⟨0x90, 0xBF⟩, continuation, continuation]
  else if lead < 0xF4 then some [continuation, continuation, continuation]
  else if lead = 0xF4 then some [⟨0x80, 0x8F⟩, continuation, continuation]
  else none

/-- The first fault of bytes that stand after `start + taken` earlier ones, the last `taken` of
them an unfinished sequence that still waits for bytes in the `pending` ranges. -/
def scan : (start taken : Nat) → (pending : List ByteRange) → Bytes → Option Fault
  | _, _, [], [] => none
  | start, _, _ :: _, [] => some ⟨start, none⟩
  | start, _, [], b :: bs =>
    match following b with
    | none => some ⟨start, some 1⟩
    | some [] => scan (start + 1) 0 [] bs
    | some (r :: rs) => scan start 1 (r :: rs) bs
  | start, taken, [r], b :: bs =>
    if r.contains b then scan (start + taken + 1) 0 [] bs else some ⟨start, some taken⟩
  | start, taken, r :: s :: rs, b :: bs =>
    if r.contains b then scan start (taken + 1) (s :: rs) bs else some ⟨start, some taken⟩

/-- The first fault of bytes that are no text. -/
def fault (bs : Bytes) : Fault :=
  (scan 0 0 [] bs).getD ⟨bs.length, none⟩

/-- The text with the given bytes, or the fault that keeps them from being text. -/
def decode (bs : Bytes) : Except Fault String :=
  match String.fromUTF8? bs.toByteArray with
  | some s => .ok s
  | none => .error (fault bs)

theorem toByteArray_encode (s : String) : (encode s).toByteArray = s.toByteArray := by
  apply ByteArray.ext
  simp [encode, List.data_toByteArray]

theorem decode_encode (s : String) : decode (encode s) = .ok s := by
  simp [decode, toByteArray_encode, String.fromUTF8?, s.isValidUTF8, String.fromUTF8]

theorem eq_encode_of_decode {bs : Bytes} {s : String} (h : decode bs = .ok s) :
    bs = encode s := by
  unfold decode String.fromUTF8? at h
  split at h
  · rename_i t heq
    split at heq
    · cases heq
      cases h
      simp [encode, String.fromUTF8, List.data_toByteArray]
    · cases heq
  · cases h

/-- Reading accepts exactly what writing produces. -/
theorem decode_eq_ok_iff {bs : Bytes} {s : String} : decode bs = .ok s ↔ bs = encode s :=
  ⟨eq_encode_of_decode, fun h => h ▸ decode_encode s⟩

@[simp] theorem length_encode (s : String) : (encode s).length = s.utf8ByteSize := by
  rw [encode, Array.length_toList]
  exact s.size_toByteArray

end PackStream.Utf8
