import PackStream.Proofs.Layout.Basic

/-!
# Bytes determine the layout

No byte string can be taken apart in two ways: two layouts that begin the same bytes are equal, and
leave the same bytes after them.

Main statement: `Layout.bytes_append_inj`.
-/

set_option autoImplicit false

namespace PackStream

/-! ## Sizes and texts -/

theorem SizeClass.Holds.append_inj {width : SizeClass} {n m : Nat} {x y : Bytes}
    (hn : width.Holds n) (hm : width.Holds m)
    (h : Bytes.bigEndian width.prefixWidth n ++ x = Bytes.bigEndian width.prefixWidth m ++ y) :
    n = m ∧ x = y := by
  obtain ⟨word, rest⟩ := List.append_inj h (by simp)
  refine ⟨?_, rest⟩
  have digits := congrArg Bytes.ofBigEndian word
  rw [Bytes.ofBigEndian_bigEndian, Bytes.ofBigEndian_bigEndian] at digits
  cases width with
  | tiny k =>
    obtain ⟨tiny, rfl⟩ := hn
    obtain ⟨tiny', same⟩ := hm
    have low := congrArg UInt8.toNat same
    rw [UInt8.toNat_ofNat', UInt8.toNat_ofNat'] at low
    omega
  | size8 | size16 | size32 =>
    simp only [SizeClass.Holds, SizeClass.prefixWidth, Bytes.modulus] at hn hm digits
    omega

theorem Category.header_append_inj {c : Category} {width other : SizeClass} {n m : Nat}
    {x y : Bytes} (hw : c.Offers width) (hn : width.Holds n) (ho : c.Offers other)
    (hm : other.Holds m) (h : c.family.header width n ++ x = c.family.header other m ++ y) :
    width = other ∧ n = m ∧ x = y := by
  obtain ⟨b, announced, form⟩ := Category.header_eq_cons hw hn
  obtain ⟨b', announced', form'⟩ := Category.header_eq_cons ho hm
  rw [form, form', List.cons_append, List.cons_append] at h
  obtain ⟨rfl, sizes⟩ := List.cons.inj h
  have same : c.marker width = c.marker other := announced.symm.trans announced'
  have widths : width = other := by
    cases c <;> exact (by simpa [marker] using same)
  subst widths
  exact ⟨rfl, hn.append_inj hm sizes⟩

theorem TextLayout.bytes_append_inj {s t : TextLayout} {x y : Bytes}
    (hs : s.width.Holds s.text.utf8ByteSize) (ht : t.width.Holds t.text.utf8ByteSize)
    (h : s.bytes ++ x = t.bytes ++ y) : s = t ∧ x = y := by
  obtain ⟨width, text⟩ := s
  obtain ⟨other, text'⟩ := t
  have offers := Category.offers_of_ne (c := .string) (by decide)
  rw [bytes, bytes, List.append_assoc, List.append_assoc] at h
  obtain ⟨rfl, sizes, texts⟩ :=
    Category.header_append_inj (c := .string) (offers width) hs (offers other) ht h
  obtain ⟨encoded, rest⟩ := List.append_inj texts (by simpa using sizes)
  have decoded := congrArg Utf8.decode encoded
  rw [Utf8.decode_encode, Utf8.decode_encode] at decoded
  cases decoded
  exact ⟨rfl, rest⟩

/-! ## Integers -/

namespace IntWidth

/-- What the first byte of an integer announces. -/
def marker : IntWidth → Int64 → Marker
  | .tiny, i => .tinyInt (Int8.ofInt i.toInt)
  | width, _ => .int width

theorem bytes_eq_cons {width : IntWidth} {i : Int64} (holds : width.Holds i.toInt) :
    ∃ b w, width.bytes i.toInt = b :: w ∧ Marker.ofByte b = width.marker i := by
  cases width with
  | tiny =>
    obtain ⟨b, range, read, form⟩ := exists_tiny_of_holds holds
    refine ⟨b, [], form, ofByte_eq_tinyInt_iff.2 ⟨range, ?_⟩⟩
    rw [← read, Int8.ofInt_toInt]
  | int8 | int16 | int32 | int64 => exact ⟨_, _, rfl, rfl⟩

theorem bytes_inj {width : IntWidth} {i j : Int64} (hi : width.Holds i.toInt)
    (hj : width.Holds j.toInt) (h : width.bytes i.toInt = width.bytes j.toInt) : i = j := by
  cases width with
  | tiny =>
    obtain ⟨lo, hi⟩ := hi
    obtain ⟨lo', hi'⟩ := hj
    have modulus : Bytes.modulus 1 = 256 := rfl
    have read := congrArg Reader.ofTwosComplement h
    change Reader.ofTwosComplement (twosComplement 1 _) =
      Reader.ofTwosComplement (twosComplement 1 _) at read
    rwa [ofTwosComplement_twosComplement (by omega) (by omega),
      ofTwosComplement_twosComplement (by omega) (by omega)] at read
  | int8 | int16 | int32 | int64 =>
    obtain ⟨-, payload⟩ := List.cons.inj h
    have read := (eq_ofTwosComplement_iff (by simp)).2 ⟨hi, rfl⟩
    have read' := (eq_ofTwosComplement_iff (by simp)).2 ⟨hj, payload⟩
    exact read.2.trans read'.2.symm

theorem bytes_append_inj {width other : IntWidth} {i j : Int64} {x y : Bytes}
    (hi : width.Holds i.toInt) (hj : other.Holds j.toInt)
    (h : width.bytes i.toInt ++ x = other.bytes j.toInt ++ y) :
    width = other ∧ i = j ∧ x = y := by
  obtain ⟨b, w, form, announced⟩ := bytes_eq_cons hi
  obtain ⟨b', w', form', announced'⟩ := bytes_eq_cons hj
  have first : b = b' := by
    rw [form, form'] at h
    exact (List.cons.inj h).1
  have same : width.marker i = other.marker j := by
    rw [← announced, ← announced', first]
  have widths : width = other := by
    cases width <;> cases other <;> first | rfl | cases same
  subst widths
  obtain ⟨bytes, rest⟩ := List.append_inj h (by simp)
  exact ⟨rfl, bytes_inj hi hj bytes, rest⟩

end IntWidth

/-! ## Layouts -/

/-- The category of the values that a marker stands before. -/
def Marker.kind? : Marker → Option Kind
  | .null => some .null
  | .boolean _ => some .boolean
  | .float => some .float
  | .tinyInt _ | .int _ => some .integer
  | .string _ => some .string
  | .list _ => some .list
  | .dict _ => some .dict
  | .struct _ => some .struct
  | .reserved => none

namespace Layout

/-- The category of the value that a layout is one of. -/
def kind : Layout → Kind
  | null => .null
  | boolean _ => .boolean
  | float _ => .float
  | integer _ _ => .integer
  | string _ => .string
  | list _ _ => .list
  | dict _ _ => .dict
  | struct _ _ _ => .struct

theorem self_mem_nodes (t : Layout) : t ∈ t.nodes := by
  cases t <;> exact List.mem_cons_self

/-- The first byte of a layout tells its category. -/
theorem bytes_eq_cons {t : Layout} (h : t.Admissible) :
    ∃ b w, t.bytes = b :: w ∧ (Marker.ofByte b).kind? = some t.kind := by
  cases t with
  | null => exact ⟨_, _, rfl, rfl⟩
  | boolean b =>
    refine ⟨_, _, rfl, ?_⟩
    cases b <;> rfl
  | float x => exact ⟨_, _, rfl, rfl⟩
  | integer width i =>
    obtain ⟨b, w, form, announced⟩ := IntWidth.bytes_eq_cons h
    refine ⟨b, w, form, ?_⟩
    rw [announced]
    cases width <;> rfl
  | string s =>
    have offers := Category.offers_of_ne (c := .string) (by decide) s.width
    obtain ⟨b, announced, form⟩ := Category.header_eq_cons offers h
    refine ⟨b, _, congrArg (· ++ Utf8.encode s.text) form, ?_⟩
    rw [announced]
    rfl
  | list width ts =>
    have offers := Category.offers_of_ne (c := .list) (by decide) width
    obtain ⟨b, announced, form⟩ := Category.header_eq_cons offers h
    refine ⟨b, _, congrArg (· ++ bytesItems ts) form, ?_⟩
    rw [announced]
    rfl
  | dict width es =>
    have offers := Category.offers_of_ne (c := .dict) (by decide) width
    obtain ⟨b, announced, form⟩ := Category.header_eq_cons offers h.1
    refine ⟨b, _, congrArg (· ++ bytesEntries es) form, ?_⟩
    rw [announced]
    rfl
  | struct width signature ts =>
    obtain ⟨b, announced, form⟩ := Category.header_eq_cons (c := .struct) (fun _ => h.2) h.1
    refine ⟨b, _, congrArg (· ++ signature :: bytesItems ts) form, ?_⟩
    rw [announced]
    rfl

theorem kind_eq {t u : Layout} {x y : Bytes} (ht : t.WellFormed) (hu : u.WellFormed)
    (h : t.bytes ++ x = u.bytes ++ y) : t.kind = u.kind := by
  obtain ⟨b, w, form, told⟩ := bytes_eq_cons (ht t t.self_mem_nodes)
  obtain ⟨b', w', form', told'⟩ := bytes_eq_cons (hu u u.self_mem_nodes)
  rw [form, form'] at h
  obtain ⟨rfl, -⟩ := List.cons.inj h
  exact Option.some.inj (told.symm.trans told')

mutual

/-- Two layouts that begin the same bytes are equal, and leave the same bytes after them. -/
theorem bytes_append_inj {t u : Layout} {x y : Bytes} (ht : t.WellFormed) (hu : u.WellFormed)
    (h : t.bytes ++ x = u.bytes ++ y) : t = u ∧ x = y := by
  have same := kind_eq ht hu h
  cases t with
  | null =>
    cases u with
    | null => exact ⟨rfl, (List.cons.inj h).2⟩
    | _ => cases same
  | boolean b =>
    cases u with
    | boolean c =>
      obtain ⟨first, rest⟩ := List.cons.inj h
      cases b <;> cases c <;> first | exact ⟨rfl, rest⟩ | cases first
    | _ => cases same
  | float a =>
    cases u with
    | float b =>
      obtain ⟨-, payload⟩ := List.cons.inj h
      obtain ⟨word, rest⟩ := List.append_inj payload (by simp)
      have digits := congrArg Bytes.ofBigEndian word
      have ha : a.bits.toNat < Bytes.modulus 8 := a.bits.toNat_lt
      have hb : b.bits.toNat < Bytes.modulus 8 := b.bits.toNat_lt
      rw [Bytes.ofBigEndian_bigEndian, Bytes.ofBigEndian_bigEndian, Nat.mod_eq_of_lt ha,
        Nat.mod_eq_of_lt hb] at digits
      obtain ⟨a⟩ := a
      obtain ⟨b⟩ := b
      have bits : a = b := UInt64.toNat_inj.1 digits
      rw [bits]
      exact ⟨rfl, rest⟩
    | _ => cases same
  | integer width i =>
    cases u with
    | integer other j =>
      have hi := List.forall_mem_singleton.1 ht
      have hj := List.forall_mem_singleton.1 hu
      obtain ⟨rfl, rfl, rest⟩ := IntWidth.bytes_append_inj hi hj h
      exact ⟨rfl, rest⟩
    | _ => cases same
  | string s =>
    cases u with
    | string s' =>
      have hs := List.forall_mem_singleton.1 ht
      have hs' := List.forall_mem_singleton.1 hu
      obtain ⟨rfl, rest⟩ := TextLayout.bytes_append_inj hs hs' h
      exact ⟨rfl, rest⟩
    | _ => cases same
  | list width ts =>
    cases u with
    | list other us =>
      obtain ⟨own, inner⟩ := List.forall_mem_cons.1 ht
      obtain ⟨own', inner'⟩ := List.forall_mem_cons.1 hu
      rw [bytes, bytes, List.append_assoc, List.append_assoc] at h
      have offers := Category.offers_of_ne (c := .list) (by decide)
      obtain ⟨rfl, sizes, each⟩ :=
        Category.header_append_inj (c := .list) (offers width) own (offers other) own' h
      obtain ⟨rfl, rest⟩ := bytesItems_append_inj inner inner' sizes each
      exact ⟨rfl, rest⟩
    | _ => cases same
  | dict width es =>
    cases u with
    | dict other fs =>
      obtain ⟨own, inner⟩ := List.forall_mem_cons.1 ht
      obtain ⟨own', inner'⟩ := List.forall_mem_cons.1 hu
      rw [bytes, bytes, List.append_assoc, List.append_assoc] at h
      have offers := Category.offers_of_ne (c := .dict) (by decide)
      obtain ⟨rfl, sizes, each⟩ :=
        Category.header_append_inj (c := .dict) (offers width) own.1 (offers other) own'.1 h
      obtain ⟨rfl, rest⟩ := bytesEntries_append_inj inner inner' sizes each
      exact ⟨rfl, rest⟩
    | _ => cases same
  | struct width signature ts =>
    cases u with
    | struct other signature' us =>
      obtain ⟨own, inner⟩ := List.forall_mem_cons.1 ht
      obtain ⟨own', inner'⟩ := List.forall_mem_cons.1 hu
      rw [bytes, bytes, List.append_assoc, List.append_assoc] at h
      obtain ⟨rfl, sizes, each⟩ :=
        Category.header_append_inj (c := .struct) (fun _ => own.2) own.1 (fun _ => own'.2) own'.1 h
      obtain ⟨rfl, fields⟩ := List.cons.inj each
      obtain ⟨rfl, rest⟩ := bytesItems_append_inj inner inner' sizes fields
      exact ⟨rfl, rest⟩
    | _ => cases same

theorem bytesItems_append_inj {ts us : List Layout} {x y : Bytes}
    (ht : ∀ node ∈ nodesItems ts, node.Admissible) (hu : ∀ node ∈ nodesItems us, node.Admissible)
    (sizes : ts.length = us.length) (h : bytesItems ts ++ x = bytesItems us ++ y) :
    ts = us ∧ x = y := by
  cases ts with
  | nil =>
    cases us with
    | nil => exact ⟨rfl, h⟩
    | cons u us => cases sizes
  | cons t ts =>
    cases us with
    | nil => cases sizes
    | cons u us =>
      obtain ⟨own, inner⟩ := List.forall_mem_append.1 ht
      obtain ⟨own', inner'⟩ := List.forall_mem_append.1 hu
      rw [bytesItems, bytesItems, List.append_assoc, List.append_assoc] at h
      obtain ⟨rfl, others⟩ := bytes_append_inj own own' h
      obtain ⟨rfl, rest⟩ := bytesItems_append_inj inner inner' (Nat.succ.inj sizes) others
      exact ⟨rfl, rest⟩

theorem bytesEntries_append_inj {es fs : List (TextLayout × Layout)} {x y : Bytes}
    (ht : ∀ node ∈ nodesEntries es, node.Admissible)
    (hu : ∀ node ∈ nodesEntries fs, node.Admissible) (sizes : es.length = fs.length)
    (h : bytesEntries es ++ x = bytesEntries fs ++ y) : es = fs ∧ x = y := by
  match es, fs with
  | [], [] => exact ⟨rfl, h⟩
  | [], _ :: _ => cases sizes
  | _ :: _, [] => cases sizes
  | (k, t) :: es, (j, u) :: fs =>
    obtain ⟨key, parts⟩ := List.forall_mem_cons.1 ht
    obtain ⟨key', parts'⟩ := List.forall_mem_cons.1 hu
    obtain ⟨own, inner⟩ := List.forall_mem_append.1 parts
    obtain ⟨own', inner'⟩ := List.forall_mem_append.1 parts'
    simp only [bytesEntries, List.append_assoc] at h
    obtain ⟨rfl, contents⟩ := TextLayout.bytes_append_inj key key' h
    obtain ⟨rfl, others⟩ := bytes_append_inj own own' contents
    obtain ⟨rfl, rest⟩ := bytesEntries_append_inj inner inner' (Nat.succ.inj sizes) others
    exact ⟨rfl, rest⟩

end

end Layout

end PackStream
