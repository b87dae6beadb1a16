import PackStream.Proofs.Decoding.Continuation
import PackStream.Proofs.Encoding.Shortest

/-!
# How much work reading is

Beginning a value uses up its marker, so the number of values begun plus the number of bytes left
does not grow while markers are found, and reading stops where one is missing. Whatever the headers
announce, reading therefore begins at most one value more than it uses bytes, it does not depend on
the bound on nesting, and a loop over the values of a stream ends.

Main statement: `value_work_bounded`.
-/

set_option autoImplicit false

namespace PackStream

/-! ## The extent of a value -/

mutual

/-- The number of values in a value, itself included, and of keys, and the length of all strings
and keys in bytes. -/
def Value.extent : Value → Nat
  | .null | .boolean _ | .integer _ | .float _ => 1
  | .string s => 1 + s.utf8ByteSize
  | .list vs => 1 + extentItems vs
  | .dict es => 1 + extentEntries es
  | .struct _ vs => 1 + extentItems vs

/-- The extent of values together. -/
def Value.extentItems : List Value → Nat
  | [] => 0
  | v :: vs => v.extent + extentItems vs

/-- The extent of keys and values together. -/
def Value.extentEntries : List (String × Value) → Nat
  | [] => 0
  | (k, v) :: es => 1 + k.utf8ByteSize + v.extent + extentEntries es

end

theorem Reference.extent_le_length_string (options : Options) (s : String) :
    1 + s.utf8ByteSize ≤ (string options s).length := by
  have header := length_header_pos options.lengths .string s.utf8ByteSize
  rw [string, List.length_append, Utf8.length_encode]
  omega

mutual

/-- An encoding has a byte for every value and key, and all the bytes of strings and keys. -/
theorem Value.extent_le_length_reference (options : Options) (v : Value) :
    v.extent ≤ (v.reference options).length := by
  cases v with
  | null | boolean | float => exact Nat.succ_le_succ (Nat.zero_le _)
  | integer i =>
    rw [extent, reference, Reference.integer_eq_bytes, IntWidth.length_bytes]
    exact Nat.le_add_right 1 _
  | string s => exact Reference.extent_le_length_string options s
  | list vs =>
    have header := Reference.length_header_pos options.lengths .list vs.length
    have inner := extentItems_le_length_reference options vs
    rw [extent, reference, List.length_append]
    omega
  | dict es =>
    have header := Reference.length_header_pos options.lengths .dict es.length
    have inner := extentEntries_le_length_reference options es
    rw [extent, reference, List.length_append]
    omega
  | struct signature vs =>
    have inner := extentItems_le_length_reference options vs
    have header : 0 < (Reference.structHeader options signature vs.length).length := by
      unfold Reference.structHeader
      cases options.signature with
      | afterHeader =>
        rw [List.length_append]
        exact Nat.add_pos_right _ Nat.one_pos
      | beforeHeader => exact Nat.zero_lt_succ _
    rw [extent, reference, List.length_append]
    omega

theorem Value.extentItems_le_length_reference (options : Options) (vs : List Value) :
    extentItems vs ≤ (referenceItems options vs).length := by
  cases vs with
  | nil => exact Nat.le_refl 0
  | cons v vs =>
    rw [extentItems, referenceItems, List.length_append]
    exact Nat.add_le_add (extent_le_length_reference options v)
      (extentItems_le_length_reference options vs)

theorem Value.extentEntries_le_length_reference (options : Options)
    (es : List (String × Value)) :
    extentEntries es ≤ (referenceEntries options es).length := by
  match es with
  | [] => exact Nat.le_refl 0
  | (k, v) :: es =>
    rw [extentEntries, referenceEntries, List.length_append, List.length_append]
    exact Nat.add_le_add (Nat.add_le_add (Reference.extent_le_length_string options k)
      (extent_le_length_reference options v)) (extentEntries_le_length_reference options es)

end

/-- No form of a value is shorter than the extent of the value. -/
theorem Wire.extent_le_length {v : Value} {w : Bytes} (h : Wire v w) : v.extent ≤ w.length :=
  Nat.le_trans (v.extent_le_length_reference .standard) h.length_reference_le

/-! ## Values begun and bytes left -/

/-- The number of values begun and of bytes left. -/
def Cursor.charge (c : Cursor) : Nat :=
  c.begun + c.rest.length

namespace Reader

variable {α β : Type} {bound : Nat}

/-- On input shorter than `bound`, the reader does not run into the bound on nesting, and it does
not begin more values than it uses bytes, except for one that it fails in. -/
structure Frugal (bound : Nat) (r : Reader α) : Prop where
  advances : Advances r
  shallow (c : Cursor) (h : c.rest.length < bound) : (r c).outcome ≠ .error (.fault .tooDeep)
  ok {c d : Cursor} {a : α} (h : c.rest.length < bound) (done : r c = .ok a d) :
    d.charge ≤ c.charge
  error {c d : Cursor} {stop : Stop} (h : c.rest.length < bound) (done : r c = .error stop d) :
    d.charge ≤ c.charge + 1

theorem Frugal.bind {r : Reader α} {k : α → Reader β} (hr : Frugal bound r)
    (hk : ∀ a, Frugal bound (k a)) : Frugal bound (r >>= k) := by
  refine ⟨hr.advances.bind fun a => (hk a).advances, ?_, ?_, ?_⟩
  · intro c hc
    have first := hr.shallow c hc
    rw [EStateM.bind_apply]
    cases done : r c with
    | ok a d => exact (hk a).shallow d (hr.advances.lt_of_ok hc done)
    | error stop d =>
      rw [done] at first
      intro given
      exact first (congrArg Except.error (Except.error.inj given))
  · intro c e b hc done
    obtain ⟨a, d, first, second⟩ := EStateM.bind_eq_ok_iff.1 done
    exact Nat.le_trans ((hk a).ok (hr.advances.lt_of_ok hc first) second) (hr.ok hc first)
  · intro c e stop hc failed
    obtain first | ⟨a, d, first, second⟩ := EStateM.bind_eq_error_iff.1 failed
    · exact hr.error hc first
    · have before := hr.ok hc first
      have later := (hk a).error (hr.advances.lt_of_ok hc first) second
      omega

/-- A reader that begins no value. -/
theorem frugal_of_idle {r : Reader α} (advances : Advances r)
    (idle : ∀ c, (r c).state.begun = c.begun)
    (shallow : ∀ c, (r c).outcome ≠ .error (.fault .tooDeep)) : Frugal bound r := by
  have le (c : Cursor) : (r c).state.charge ≤ c.charge := by
    rw [Cursor.charge, idle]
    exact Nat.add_le_add_left (advances c).length_le _
  refine ⟨advances, fun c _ => shallow c, ?_, ?_⟩
  · intro c d a _ done
    have charge := le c
    rw [done] at charge
    exact charge
  · intro c d stop _ done
    have charge := le c
    rw [done] at charge
    exact Nat.le_succ_of_le charge

theorem frugal_pure (a : α) : Frugal bound (pure a) :=
  frugal_of_idle (fun _ => List.suffix_refl _) (fun _ => rfl) fun _ => nofun

theorem frugal_throw {stop : Stop} (shallow : stop ≠ .fault .tooDeep) :
    Frugal bound (throw stop : Reader α) := by
  refine frugal_of_idle (fun _ => List.suffix_refl _) (fun _ => rfl) ?_
  intro c given
  exact shallow (Except.error.inj given)

/-- Bytes that are checked for do not run out, and begin no value. -/
theorem frugal_reads {n : Nat} {r : Reader α} {k : α → Reader β} (takes : Takes n r)
    (hk : ∀ a, Frugal bound (k a)) : Frugal bound (need n >>= fun _ => r >>= k) := by
  refine ⟨(advances_need n).bind fun _ => takes.advances.bind fun a => (hk a).advances, ?_, ?_, ?_⟩
  · intro c hc
    obtain ⟨-, short⟩ | ⟨a, d, -, -, left, same⟩ := takes.need_bind_apply k c
    · rw [short]
      nofun
    · rw [same]
      exact (hk a).shallow d (by omega)
  · intro c e b hc done
    obtain ⟨-, short⟩ | ⟨a, d, begun, -, left, same⟩ := takes.need_bind_apply k c
    · cases short.symm.trans done
    · have inner := (hk a).ok (by omega) (same.symm.trans done)
      simp only [Cursor.charge] at inner ⊢
      omega
  · intro c e stop hc failed
    obtain ⟨-, short⟩ | ⟨a, d, begun, -, left, same⟩ := takes.need_bind_apply k c
    · cases short.symm.trans failed
      exact Nat.le_succ _
    · have inner := (hk a).error (by omega) (same.symm.trans failed)
      simp only [Cursor.charge] at inner ⊢
      omega

theorem frugal_report (event : Event) : Frugal bound (report event) := by
  have same : Continues 0 (report event) (report event) := continues_report event
  exact frugal_of_idle same.advances (fun _ => rfl) fun _ => nofun

/-- With the marker gone, one more value is begun and one byte less is left. -/
theorem frugal_begin {k : UInt8 → Reader α} (hk : ∀ marker, Frugal bound (k marker)) :
    Frugal (bound + 1) (begin >>= fun _ => need 1 >>= fun _ => byte >>= k) := by
  have same (marker : UInt8) (rest : Bytes) (begun : Nat) (events : Array Event) :
      Cursor.charge { rest, begun := begun + 1, events } =
        Cursor.charge { rest := marker :: rest, begun, events } := by
    simp only [Cursor.charge, List.length_cons]
    omega
  refine ⟨advances_begin fun marker => (hk marker).advances, ?_, ?_, ?_⟩
  · intro c hc
    rw [begin_apply]
    obtain ⟨_ | ⟨marker, rest⟩, begun, events⟩ := c
    · exact nofun
    · exact (hk marker).shallow _ (Nat.lt_of_succ_lt_succ hc)
  · intro c d a hc done
    rw [begin_apply] at done
    obtain ⟨_ | ⟨marker, rest⟩, begun, events⟩ := c
    · cases done
    · rw [← same marker]
      exact (hk marker).ok (Nat.lt_of_succ_lt_succ hc) done
  · intro c d stop hc done
    rw [begin_apply] at done
    obtain ⟨_ | ⟨marker, rest⟩, begun, events⟩ := c
    · cases done
      exact Nat.le_refl _
    · rw [← same marker]
      exact (hk marker).error (Nat.lt_of_succ_lt_succ hc) done

/-! ## Values -/

/-- Being frugal follows the parts of the reader. -/
theorem compositional_frugal : Compositional fun bound r _ => Frugal bound r where
  pure := frugal_pure
  bind := Frugal.bind
  reads := frugal_reads
  marker := frugal_begin
  invalidUtf8 _ := frugal_throw nofun
  nonStringKey _ := frugal_throw nofun
  duplicateKey _ := frugal_throw nofun
  reserved _ := (frugal_report _).bind fun _ => frugal_throw nofun
  zero forward _ := by
    refine ⟨forward, ?_, ?_, ?_⟩
    · intro c hc
      exact absurd hc (Nat.not_lt_zero _)
    · intro c d v hc
      exact absurd hc (Nat.not_lt_zero _)
    · intro c d stop hc
      exact absurd hc (Nat.not_lt_zero _)

theorem frugal_nested (depth : Nat) : Frugal depth (nested depth) :=
  compositional_frugal.nested_self depth

theorem frugal_value : Frugal bound value where
  advances c := advances_nested (c.rest.length + 1) c
  shallow c _ := (frugal_nested (c.rest.length + 1)).shallow c (Nat.lt_succ_self _)
  ok {c _ _} _ done := (frugal_nested (c.rest.length + 1)).ok (Nat.lt_succ_self _) done
  error {c _ _} _ done := (frugal_nested (c.rest.length + 1)).error (Nat.lt_succ_self _) done

theorem charge_value_le (c : Cursor) : (value c).state.charge ≤ c.charge + 1 := by
  have frugal : Frugal (c.rest.length + 1) value := frugal_value
  have within : c.rest.length < c.rest.length + 1 := Nat.lt_succ_self _
  cases done : value c with
  | ok v d => exact Nat.le_succ_of_le (frugal.ok within done)
  | error stop d => exact frugal.error within done

/-! ## The bound on nesting does not matter -/

theorem Continues.eq {r r' : Reader α} (h : Continues bound r r') {c : Cursor}
    (hc : c.rest.length < bound) : r c = r' c := by
  have same (d : Cursor) : d.append [] = d := by
    rw [Cursor.append, List.append_nil]
  have follows := h.after c hc []
  rw [same] at follows
  revert follows
  generalize r c = result, r' c = result'
  intro follows
  cases follows with
  | ok a d => rw [same]
  | stopped _ d => rw [same]
  | short few => rw [same, List.length_nil, Nat.add_zero]
  | resumed few past =>
    rw [List.length_nil] at past
    omega

theorem nested_eq_value {depth : Nat} {c : Cursor} (h : c.rest.length < depth) :
    nested depth c = value c :=
  ((continues_nested h).eq (Nat.lt_succ_self _)).symm

theorem continues_value : Continues bound (nested bound) value where
  advances := advances_nested bound
  advances' c := advances_nested (c.rest.length + 1) c
  after c hc more := by
    rw [nested_eq_value hc]
    exact after_value c more

/-- Reading a value is reading a marker and what it announces, with the same reader for the values
inside. -/
theorem value_eq_level : value = level value := by
  funext c
  have inside : Continues c.rest.length (nested c.rest.length) value := continues_value
  exact (compositional_continues.level inside).eq (Nat.lt_succ_self _)

theorem length_rest_value_lt {c : Cursor} (h : c.rest ≠ []) :
    (value c).state.rest.length < c.rest.length := by
  rw [congrFun value_eq_level c, level, begin_apply]
  obtain ⟨_ | ⟨marker, rest⟩, begun, events⟩ := c
  · exact absurd rfl h
  · have inside : Continues 0 (announced (nested 0) marker) (announced value marker) :=
      compositional_continues.announced continues_value marker
    exact Nat.lt_succ_of_le (inside.advances' _).length_le

theorem length_rest_lt_of_value_ok {c d : Cursor} {v : Value} (h : value c = .ok v d) :
    d.rest.length < c.rest.length := by
  have some : c.rest ≠ [] := by
    obtain ⟨rest, begun, events⟩ := c
    rintro rfl
    have empty : value { rest := [], begun, events } =
        .error (.refused (.unexpectedEof 1 0)) { rest := [], begun := begun + 1, events } := rfl
    rw [empty] at h
    cases h
  have lt := length_rest_value_lt some
  rw [h] at lt
  exact lt

end Reader

/-! ## Streams of values -/

/-- A complete loop over the values of a stream: it ends with a failure, or when nothing is left. -/
inductive Cursor.Drains : Cursor → List Attempt → Prop
  | failed {c d : Cursor} {stop : Stop} (fails : Reader.value c = .error stop d) :
      Drains c [.error stop d]
  | finished {c d : Cursor} {v : Value} (read : Reader.value c = .ok v d) (nothing : d.rest = []) :
      Drains c [.ok v d]
  | more {c d : Cursor} {v : Value} {attempts : List Attempt} (read : Reader.value c = .ok v d)
      (left : d.rest ≠ []) (others : Drains d attempts) : Drains c (.ok v d :: attempts)

/-- Enough calls come to the complete loop. -/
theorem Cursor.Drains.values_eq {c : Cursor} {attempts : List Attempt} (h : c.Drains attempts)
    {calls : Nat} (enough : attempts.length ≤ calls) : c.values calls = attempts := by
  induction h generalizing calls with
  | failed fails =>
    obtain ⟨calls, rfl⟩ := Nat.exists_eq_add_one.2 enough
    rw [Cursor.values, fails]
  | finished read nothing =>
    obtain ⟨calls, rfl⟩ := Nat.exists_eq_add_one.2 enough
    rw [Cursor.values, read]
    dsimp only
    rw [nothing]
    rfl
  | more read left others ih =>
    obtain ⟨calls, rfl⟩ := Nat.exists_eq_add_one.2 (Nat.zero_lt_of_lt enough)
    rw [Cursor.values, read]
    dsimp only
    rw [ih (Nat.le_of_succ_le_succ enough), if_neg]
    simpa using left

/-- Every value takes a byte at least, so the loop ends. -/
theorem Cursor.exists_drains (c : Cursor) :
    ∃ attempts, c.Drains attempts ∧ attempts.length ≤ max 1 c.rest.length := by
  cases read : Reader.value c with
  | error stop d => exact ⟨_, .failed read, Nat.le_max_left _ _⟩
  | ok v d =>
    by_cases nothing : d.rest = []
    · exact ⟨_, .finished read nothing, Nat.le_max_left _ _⟩
    · have shorter := Reader.length_rest_lt_of_value_ok read
      obtain ⟨attempts, others, le⟩ := exists_drains d
      have pos := List.length_pos_iff.2 nothing
      refine ⟨_, .more read nothing others, ?_⟩
      rw [List.length_cons]
      omega
termination_by c.rest.length

namespace Reader

/-- Reading a value follows its own recursion, and a bound on nesting that exceeds the length of the
input is never met. Reading uses up a beginning of the input, at least a byte if there is one, and
begins at most one value more than it uses bytes. A value that it yields is no larger than these
bytes. So a loop over the values of a stream ends. -/
theorem value_work_bounded (c : Cursor) :
    (value c = level value c ∧ (∀ depth, c.rest.length < depth → nested depth c = value c) ∧
      (value c).outcome ≠ .error (.fault .tooDeep)) ∧
    (∃ w, c.rest = w ++ (value c).state.rest ∧ (c.rest ≠ [] → w ≠ []) ∧
      (value c).state.begun ≤ c.begun + w.length + 1 ∧
      ∀ v, (value c).outcome = .ok v → v.extent ≤ w.length) ∧
    ∃ attempts, c.Drains attempts ∧ attempts.length ≤ max 1 c.rest.length ∧
      ∀ calls, attempts.length ≤ calls → c.values calls = attempts := by
  have frugal : Frugal (c.rest.length + 1) value := frugal_value
  have shallow := frugal.shallow c (Nat.lt_succ_self _)
  have equation : value c = level value c := congrFun value_eq_level c
  refine ⟨⟨equation, fun depth => nested_eq_value, shallow⟩, ?_, ?_⟩
  · obtain ⟨w, hw⟩ := frugal.advances c
    have total := congrArg List.length hw
    rw [List.length_append] at total
    refine ⟨w, hw.symm, ?_, ?_, ?_⟩
    · rintro some rfl
      have lt := length_rest_value_lt some
      rw [List.length_nil] at total
      omega
    · have charge := charge_value_le c
      unfold Cursor.charge at charge
      omega
    · intro v yields
      cases done : value c with
      | error stop d =>
        rw [done] at yields
        cases yields
      | ok u d =>
        rw [done] at yields hw
        cases yields
        have reads : Accepts c.rest.length value Wire := accepts_value
        obtain ⟨form, consumed, wire⟩ := (reads c (Nat.le_refl _) v d.rest).1 ⟨d, done, rfl⟩
        cases List.append_cancel_right (hw.trans consumed)
        exact wire.extent_le_length
  · obtain ⟨attempts, drains, le⟩ := c.exists_drains
    exact ⟨attempts, drains, le, fun calls => drains.values_eq⟩

/-- A list that announces more than there is: one value is begun after the last byte. -/
example : (value { rest := [0xD6, 0xFF, 0xFF, 0xFF, 0xFF, 0xC0] }).state.begun = 3 ∧
    (value { rest := [0x91] }).state.begun = 2 := ⟨rfl, rfl⟩

end Reader

end PackStream
