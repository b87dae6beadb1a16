import PackStream.Proofs.Encoding.Form
import PackStream.Proofs.Layout.Basic
import PackStream.Proofs.Text.ByteOrder

/-!
# Canonical layouts

A layout is canonical if every node of it is as narrow as it can be and lists its keys in order.
`Value.layout` is the canonical layout of a value, and the bytes of any canonical layout are those
that its value is encoded to.

Main statements: `Value.canonical_layout`, and `Layout.bytes_eq_reference`.
-/

set_option autoImplicit false

namespace PackStream

namespace Layout

/-- Whether a node is written in the narrowest width, and its keys in strictly increasing order of
their bytes. -/
def Narrow : Layout → Prop
  | null | boolean _ | float _ => True
  | integer width i => width.Narrowest i.toInt
  | string s => s.width.Narrowest s.text.utf8ByteSize
  | list width ts => width.Narrowest ts.length
  | dict width es => width.Narrowest es.length ∧
      (keys es).Pairwise fun j k => Utf8.encode j < Utf8.encode k
  | struct width _ ts => width.Narrowest ts.length

/-- A layout all of whose nodes are narrow. -/
def Canonical (t : Layout) : Prop :=
  ∀ node ∈ t.nodes, node.Narrow

theorem sorted_valueEntries_iff {es : List (TextLayout × Layout)} :
    Sorted (valueEntries es) ↔
      (keys es).Pairwise fun j k => Utf8.encode j < Utf8.encode k := by
  simp only [Utf8.encode_lt_encode_iff]
  rw [← map_fst_valueEntries, List.pairwise_map]

/-- Entries that are written in order are listed as they are written. -/
theorem value_dict {width : SizeClass} {es : List (TextLayout × Layout)}
    (sorted : Sorted (valueEntries es)) : (dict width es).value = .dict (valueEntries es) :=
  congrArg Value.dict
    ((Dict.toList_insertAll_eq_iff sorted.nodup_keys).2 ⟨List.Perm.refl _, sorted⟩)

end Layout

/-! ## Canonical layouts are encodings -/

theorem Category.header_eq_reference {c : Category} {width : SizeClass} {n : Nat}
    (offers : c.Offers width) (narrowest : width.Narrowest n) :
    c.family.header width n = Reference.header .full c.family n := by
  obtain ⟨b, present⟩ := offers.exists_marker
  rw [Reference.header_full c narrowest present, MarkerFamily.header, present]

theorem TextLayout.bytes_eq_reference {s : TextLayout}
    (narrowest : s.width.Narrowest s.text.utf8ByteSize) :
    s.bytes = Reference.string .standard s.text := by
  have offers := Category.offers_of_ne (c := .string) (by decide) s.width
  exact congrArg (· ++ Utf8.encode s.text) (Category.header_eq_reference offers narrowest)

namespace Layout

mutual

/-- The bytes of a canonical layout are the encoding of its value. -/
theorem bytes_eq_reference {t : Layout} (ht : t.WellFormed) (hc : t.Canonical) :
    t.bytes = t.value.reference .standard := by
  cases t with
  | null => rfl
  | boolean b => rfl
  | float x => rfl
  | integer width i =>
    have narrowest := List.forall_mem_singleton.1 hc
    have widths := IntWidth.Narrowest.unique narrowest (IntWidth.narrowest_ofInt i)
    rw [bytes, widths]
    exact (Reference.integer_eq_bytes _).symm
  | string s =>
    have narrowest := List.forall_mem_singleton.1 hc
    exact TextLayout.bytes_eq_reference narrowest
  | list width ts =>
    obtain ⟨-, inner⟩ := List.forall_mem_cons.1 ht
    obtain ⟨narrowest, narrow⟩ := List.forall_mem_cons.1 hc
    have offers := Category.offers_of_ne (c := .list) (by decide) width
    have header := Category.header_eq_reference offers narrowest
    rw [value, Value.reference, length_valueItems, ← bytesItems_eq_reference inner narrow]
    exact congrArg (· ++ bytesItems ts) header
  | dict width es =>
    obtain ⟨-, inner⟩ := List.forall_mem_cons.1 ht
    obtain ⟨⟨narrowest, increasing⟩, narrow⟩ := List.forall_mem_cons.1 hc
    have offers := Category.offers_of_ne (c := .dict) (by decide) width
    have header := Category.header_eq_reference offers narrowest
    rw [value_dict (sorted_valueEntries_iff.2 increasing), Value.reference,
      length_valueEntries, ← bytesEntries_eq_reference inner narrow]
    exact congrArg (· ++ bytesEntries es) header
  | struct width signature ts =>
    obtain ⟨⟨-, offered⟩, inner⟩ := List.forall_mem_cons.1 ht
    obtain ⟨narrowest, narrow⟩ := List.forall_mem_cons.1 hc
    have header := Category.header_eq_reference (c := .struct) (fun _ => offered) narrowest
    rw [value, Value.reference, length_valueItems, ← bytesItems_eq_reference inner narrow,
      Reference.structHeader]
    simp only [Options.standard, List.append_assoc, List.singleton_append]
    exact congrArg (· ++ signature :: bytesItems ts) header

theorem bytesItems_eq_reference {ts : List Layout}
    (ht : ∀ node ∈ nodesItems ts, node.Admissible) (hc : ∀ node ∈ nodesItems ts, node.Narrow) :
    bytesItems ts = Value.referenceItems .standard (valueItems ts) := by
  cases ts with
  | nil => rfl
  | cons t ts =>
    obtain ⟨own, inner⟩ := List.forall_mem_append.1 ht
    obtain ⟨narrow, others⟩ := List.forall_mem_append.1 hc
    rw [bytesItems, bytes_eq_reference own narrow, bytesItems_eq_reference inner others]
    rfl

theorem bytesEntries_eq_reference {es : List (TextLayout × Layout)}
    (ht : ∀ node ∈ nodesEntries es, node.Admissible)
    (hc : ∀ node ∈ nodesEntries es, node.Narrow) :
    bytesEntries es = Value.referenceEntries .standard (valueEntries es) := by
  match es with
  | [] => rfl
  | (k, t) :: es =>
    obtain ⟨-, parts⟩ := List.forall_mem_cons.1 ht
    obtain ⟨key, parts'⟩ := List.forall_mem_cons.1 hc
    obtain ⟨own, inner⟩ := List.forall_mem_append.1 parts
    obtain ⟨narrow, others⟩ := List.forall_mem_append.1 parts'
    rw [bytesEntries, TextLayout.bytes_eq_reference key, bytes_eq_reference own narrow,
      bytesEntries_eq_reference inner others]
    rfl

end

end Layout

/-! ## The canonical layout of a value -/

/-- The narrowest class of a size, and the widest class if there is none. -/
def SizeClass.narrowest (n : Nat) : SizeClass :=
  (ofSize? n).getD .size32

theorem Category.narrowest_of_fits (c : Category) {n : Nat} (h : n ≤ c.family.maxSize) :
    (SizeClass.narrowest n).Narrowest n ∧ c.Offers (SizeClass.narrowest n) := by
  obtain ⟨width, b, narrowest, present⟩ := c.family.exists_narrowest h
  have chosen : SizeClass.narrowest n = width := by
    rw [SizeClass.narrowest, SizeClass.ofSize?_eq_some_iff.2 narrowest]
    rfl
  rw [chosen]
  exact ⟨narrowest, Category.offers_of_marker? present⟩

/-- The layout of a string in the narrowest class. -/
def textLayout (s : String) : TextLayout :=
  ⟨.narrowest s.utf8ByteSize, s⟩

mutual

/-- The canonical layout of a value. -/
def Value.layout : Value → Layout
  | .null => .null
  | .boolean b => .boolean b
  | .integer i => .integer (IntWidth.ofInt i.toInt) i
  | .float x => .float x
  | .string s => .string (textLayout s)
  | .list vs => .list (.narrowest vs.length) (layoutItems vs)
  | .dict es => .dict (.narrowest es.length) (layoutEntries es)
  | .struct signature vs => .struct (.narrowest vs.length) signature (layoutItems vs)

/-- The canonical layouts of values one after the other. -/
def Value.layoutItems : List Value → List Layout
  | [] => []
  | v :: vs => v.layout :: layoutItems vs

/-- The canonical layouts of entries one after the other. -/
def Value.layoutEntries : List (String × Value) → List (TextLayout × Layout)
  | [] => []
  | (k, v) :: es => (textLayout k, v.layout) :: layoutEntries es

end

namespace Value

@[simp] theorem length_layoutItems (vs : List Value) : (layoutItems vs).length = vs.length := by
  induction vs with
  | nil => rfl
  | cons v vs ih => exact congrArg (· + 1) ih

@[simp] theorem length_layoutEntries (es : List (String × Value)) :
    (layoutEntries es).length = es.length := by
  induction es with
  | nil => rfl
  | cons e es ih => exact congrArg (· + 1) ih

mutual

/-- The canonical layout of a value is a layout of it. -/
theorem value_layout {v : Value} (ordered : v.Ordered) : v.layout.value = v := by
  cases v with
  | null => rfl
  | boolean b => rfl
  | integer i => rfl
  | float x => rfl
  | string s => rfl
  | list vs =>
    cases ordered with
    | list each => exact congrArg Value.list (valueItems_layoutItems each)
  | dict es =>
    cases ordered with
    | dict keys each =>
      have entries := valueEntries_layoutEntries each
      have sorted : Sorted (Layout.valueEntries (layoutEntries es)) := by
        rw [entries]
        exact keys
      rw [layout, Layout.value_dict sorted, entries]
  | struct signature vs =>
    cases ordered with
    | struct each => exact congrArg (Value.struct signature) (valueItems_layoutItems each)

theorem valueItems_layoutItems {vs : List Value} (ordered : ∀ v ∈ vs, v.Ordered) :
    Layout.valueItems (layoutItems vs) = vs := by
  cases vs with
  | nil => rfl
  | cons v vs =>
    obtain ⟨first, others⟩ := List.forall_mem_cons.1 ordered
    rw [layoutItems, Layout.valueItems, value_layout first, valueItems_layoutItems others]

theorem valueEntries_layoutEntries {es : List (String × Value)} (ordered : ∀ e ∈ es, e.2.Ordered) :
    Layout.valueEntries (layoutEntries es) = es := by
  match es with
  | [] => rfl
  | (k, v) :: es =>
    obtain ⟨first, others⟩ := List.forall_mem_cons.1 ordered
    rw [layoutEntries, Layout.valueEntries, value_layout first,
      valueEntries_layoutEntries others]
    rfl

end

/-- The canonical layout of a string is admissible and narrow. -/
theorem canonical_textLayout {s : String} (fits : s.utf8ByteSize ≤ MarkerFamily.string.maxSize) :
    (Layout.string (textLayout s)).Admissible ∧ (Layout.string (textLayout s)).Narrow := by
  obtain ⟨narrowest, -⟩ := Category.narrowest_of_fits .string fits
  exact ⟨narrowest.holds, narrowest⟩

mutual

/-- The layout of a value is admissible and narrow at every node. -/
theorem canonical_layout {depth : Nat} {v : Value} (ordered : v.Ordered)
    (fits : ∀ node ∈ v.sizedNodes depth, node.Fits) :
    ∀ node ∈ v.layout.nodes, node.Admissible ∧ node.Narrow := by
  cases v with
  | null => exact List.forall_mem_singleton.2 ⟨trivial, trivial⟩
  | boolean b => exact List.forall_mem_singleton.2 ⟨trivial, trivial⟩
  | float x => exact List.forall_mem_singleton.2 ⟨trivial, trivial⟩
  | integer i =>
    have narrowest := IntWidth.narrowest_ofInt i
    exact List.forall_mem_singleton.2 ⟨narrowest.holds, narrowest⟩
  | string s =>
    have own := List.forall_mem_singleton.1 fits
    exact List.forall_mem_singleton.2 (canonical_textLayout own)
  | list vs =>
    cases ordered with
    | list each =>
      obtain ⟨own, inner⟩ := List.forall_mem_cons.1 fits
      obtain ⟨narrowest, -⟩ := Category.narrowest_of_fits .list own
      rw [← length_layoutItems vs] at narrowest
      rw [layout, ← length_layoutItems vs]
      exact List.forall_mem_cons.2
        ⟨⟨narrowest.holds, narrowest⟩, canonical_layoutItems each inner⟩
  | dict es =>
    cases ordered with
    | dict keys each =>
      obtain ⟨own, inner⟩ := List.forall_mem_cons.1 fits
      obtain ⟨narrowest, -⟩ := Category.narrowest_of_fits .dict own
      rw [← length_layoutEntries es] at narrowest
      have sorted : Sorted (Layout.valueEntries (layoutEntries es)) := by
        rw [valueEntries_layoutEntries each]
        exact keys
      have distinct : (Layout.keys (layoutEntries es)).Nodup := by
        rw [← Layout.map_fst_valueEntries]
        exact sorted.nodup_keys
      have increasing := Layout.sorted_valueEntries_iff.1 sorted
      rw [layout, ← length_layoutEntries es]
      exact List.forall_mem_cons.2 ⟨⟨⟨narrowest.holds, distinct⟩, narrowest, increasing⟩,
        canonical_layoutEntries each inner⟩
  | struct signature vs =>
    cases ordered with
    | struct each =>
      obtain ⟨own, inner⟩ := List.forall_mem_cons.1 fits
      obtain ⟨narrowest, offers⟩ := Category.narrowest_of_fits .struct own
      rw [← length_layoutItems vs] at narrowest offers
      rw [layout, ← length_layoutItems vs]
      exact List.forall_mem_cons.2 ⟨⟨⟨narrowest.holds, offers rfl⟩, narrowest⟩,
        canonical_layoutItems each inner⟩

theorem canonical_layoutItems {depth : Nat} {vs : List Value} (ordered : ∀ v ∈ vs, v.Ordered)
    (fits : ∀ node ∈ sizedNodesItems depth vs, node.Fits) :
    ∀ node ∈ Layout.nodesItems (layoutItems vs), node.Admissible ∧ node.Narrow := by
  cases vs with
  | nil => exact List.forall_mem_nil _
  | cons v vs =>
    obtain ⟨first, others⟩ := List.forall_mem_cons.1 ordered
    obtain ⟨own, inner⟩ := List.forall_mem_append.1 fits
    exact List.forall_mem_append.2
      ⟨canonical_layout first own, canonical_layoutItems others inner⟩

theorem canonical_layoutEntries {depth : Nat} {es : List (String × Value)}
    (ordered : ∀ e ∈ es, e.2.Ordered) (fits : ∀ node ∈ sizedNodesEntries depth es, node.Fits) :
    ∀ node ∈ Layout.nodesEntries (layoutEntries es), node.Admissible ∧ node.Narrow := by
  match es with
  | [] => exact List.forall_mem_nil _
  | (k, v) :: es =>
    obtain ⟨first, others⟩ := List.forall_mem_cons.1 ordered
    obtain ⟨key, parts⟩ := List.forall_mem_cons.1 fits
    obtain ⟨own, inner⟩ := List.forall_mem_append.1 parts
    have rest := List.forall_mem_append.2
      ⟨canonical_layout first own, canonical_layoutEntries others inner⟩
    exact List.forall_mem_cons.2 ⟨canonical_textLayout key, rest⟩

end

end Value

end PackStream
