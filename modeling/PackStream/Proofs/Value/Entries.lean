import PackStream.Value.Ordered

/-!
# Gathering entries

Entries put into a dictionary one after the other are listed in order of their keys. Main
statements: `toList_insertAll_eq_iff`, which says which list that is when no key comes twice, and
`toList_insertAll_eq_iff_gathers`, which says so when the last entry with a key counts.
-/

set_option autoImplicit false

namespace PackStream

/-- The entries of a list in strictly increasing order of their keys. -/
abbrev Sorted (entries : List (String × Value)) : Prop :=
  entries.Pairwise (fun a b => a.1 < b.1)

theorem Sorted.nodup_keys {entries : List (String × Value)} (h : Sorted entries) :
    (entries.map Prod.fst).Nodup := by
  rw [List.nodup_iff_pairwise_ne, List.pairwise_map]
  apply h.imp
  intro a b hlt heq
  exact String.lt_irrefl b.1 (heq ▸ hlt)

theorem Sorted.nodup {entries : List (String × Value)} (h : Sorted entries) : entries.Nodup := by
  apply h.imp
  intro a b hlt heq
  exact String.lt_irrefl b.1 (heq ▸ hlt)

/-- A list has one sorted rearrangement at most. -/
theorem Sorted.eq_of_perm {as bs : List (String × Value)} (ha : Sorted as) (hb : Sorted bs)
    (h : as.Perm bs) : as = bs := by
  refine h.eq_of_pairwise ?_ ha hb
  intro a b _ _ hab hba
  exact absurd hab (String.lt_asymm hba)

/-- Of the pairs with a key the last one has the value. -/
def IsLast (pairs : List (String × Value)) (k : String) (v : Value) : Prop :=
  ∃ before after, pairs = before ++ (k, v) :: after ∧ ∀ p ∈ after, p.1 ≠ k

theorem isLast_cons_iff {j k : String} {u v : Value} {pairs : List (String × Value)} :
    IsLast ((j, u) :: pairs) k v ↔
      IsLast pairs k v ∨ (j = k ∧ u = v ∧ ∀ p ∈ pairs, p.1 ≠ k) := by
  constructor
  · intro h
    obtain ⟨before, after, split, later⟩ := h
    cases before with
    | nil =>
      cases split
      exact .inr ⟨rfl, rfl, later⟩
    | cons p before =>
      cases split
      exact .inl ⟨before, after, rfl, later⟩
  · intro h
    rcases h with ⟨before, after, rfl, later⟩ | ⟨rfl, rfl, later⟩
    · exact ⟨(j, u) :: before, after, rfl, later⟩
    · exact ⟨[], pairs, rfl, later⟩

/-- The entries are what the pairs come to if the last pair with a key counts, in order of the keys.
-/
def Gathers (pairs entries : List (String × Value)) : Prop :=
  Sorted entries ∧ ∀ k v, (k, v) ∈ entries ↔ IsLast pairs k v

theorem Gathers.unique {pairs es fs : List (String × Value)} (he : Gathers pairs es)
    (hf : Gathers pairs fs) : es = fs := by
  have same : es.Perm fs := by
    apply (List.perm_ext_iff_of_nodup he.1.nodup hf.1.nodup).2
    intro e
    exact (he.2 e.1 e.2).trans (hf.2 e.1 e.2).symm
  exact he.1.eq_of_perm hf.1 same

namespace Dict

/-- The dictionary after entries are put in one after the other. -/
def insertAll (d : Dict) (pairs : List (String × Value)) : Dict :=
  pairs.foldl (fun d p => d.insert p.1 p.2) d

theorem toList_insert_of_notMem {d : Dict} {k : String} {v : Value} (h : k ∉ d) :
    (d.insert k v).toList.Perm ((k, v) :: d.toList) := by
  have absent : ∀ e ∈ d.toList, ¬ (k == e.1) = true := by
    rintro ⟨j, u⟩ he heq
    have hkj : k = j := by simpa using heq
    subst hkj
    have found := Std.TreeMap.mem_toList_iff_getElem?_eq_some.1 he
    exact h (Std.TreeMap.mem_iff_isSome_getElem?.2 (by rw [found]; rfl))
  have keep : d.toList.filter (¬ k == ·.1) = d.toList :=
    List.filter_eq_self.2 fun e he => by simpa using absent e he
  have perm := Std.TreeMap.toList_insert_perm (t := d) (k := k) (v := v)
  rwa [keep] at perm

theorem mem_keys_insert_iff (d : Dict) {j k : String} {v : Value} :
    j ∈ (d.insert k v).keys ↔ j ∈ k :: d.keys := by
  rw [Std.TreeMap.mem_keys, Std.TreeMap.mem_insert, Std.LawfulEqCmp.compare_eq_iff_eq,
    List.mem_cons, Std.TreeMap.mem_keys, eq_comm]

/-- Entries whose keys are distinct and not yet in a dictionary. -/
def Fresh (d : Dict) (pairs : List (String × Value)) : Prop :=
  (pairs.map Prod.fst).Nodup ∧ ∀ p ∈ pairs, p.1 ∉ d

theorem fresh_nil (d : Dict) : Fresh d [] :=
  ⟨List.nodup_nil, by simp⟩

theorem fresh_empty_iff {pairs : List (String × Value)} :
    Fresh ∅ pairs ↔ (pairs.map Prod.fst).Nodup :=
  and_iff_left fun _ _ => by simp

theorem fresh_cons_iff {d : Dict} {k : String} {v : Value} {pairs : List (String × Value)} :
    Fresh d ((k, v) :: pairs) ↔ k ∉ d ∧ Fresh (d.insert k v) pairs := by
  have notMem (j : String) : j ∉ d.insert k v ↔ j ≠ k ∧ j ∉ d := by
    rw [Std.TreeMap.mem_insert, not_or, Std.LawfulEqCmp.compare_eq_iff_eq]
    exact and_congr_left fun _ => ne_comm
  simp only [Fresh, notMem, List.map_cons, List.nodup_cons, List.forall_mem_cons]
  refine ⟨?_, ?_⟩
  · intro h
    rcases h with ⟨⟨hk, distinct⟩, new, others⟩
    refine ⟨new, distinct, fun p hp => ⟨?_, others p hp⟩⟩
    rintro rfl
    exact hk (List.mem_map_of_mem hp)
  · intro h
    rcases h with ⟨new, distinct, others⟩
    refine ⟨⟨fun hmem => ?_, distinct⟩, new, fun p hp => (others p hp).2⟩
    obtain ⟨p, hp, heq⟩ := List.mem_map.1 hmem
    exact (others p hp).1 heq

/-- Entries with fresh keys are all kept. -/
theorem toList_insertAll_perm {pairs : List (String × Value)} {d : Dict} (h : Fresh d pairs) :
    (insertAll d pairs).toList.Perm (pairs ++ d.toList) := by
  induction pairs generalizing d with
  | nil => exact List.Perm.refl _
  | cons p pairs ih =>
    obtain ⟨k, v⟩ := p
    obtain ⟨new, later⟩ := fresh_cons_iff.1 h
    have head := toList_insert_of_notMem (v := v) new
    have rest : (insertAll (d.insert k v) pairs).toList.Perm (pairs ++ (k, v) :: d.toList) :=
      (ih later).trans (head.append_left pairs)
    exact rest.trans List.perm_middle

/-- Entries with distinct keys gather to their sorted rearrangement. -/
theorem toList_insertAll_eq_iff {pairs entries : List (String × Value)}
    (distinct : (pairs.map Prod.fst).Nodup) :
    (insertAll ∅ pairs).toList = entries ↔ pairs.Perm entries ∧ Sorted entries := by
  have perm : (insertAll ∅ pairs).toList.Perm pairs := by
    have gathered := toList_insertAll_perm (fresh_empty_iff.2 distinct)
    rwa [show (∅ : Dict).toList = [] from rfl, List.append_nil] at gathered
  refine ⟨?_, ?_⟩
  · rintro rfl
    exact ⟨perm.symm, toList_increasing _⟩
  · intro h
    rcases h with ⟨same, sorted⟩
    exact Sorted.eq_of_perm (toList_increasing _) sorted (perm.trans same)

/-- After pairs are put in, a key has the value of its last pair, or the one that it had before. -/
theorem getElem?_insertAll_eq_some_iff {pairs : List (String × Value)} {d : Dict} {k : String}
    {v : Value} :
    (insertAll d pairs)[k]? = some v ↔
      IsLast pairs k v ∨ ((∀ p ∈ pairs, p.1 ≠ k) ∧ d[k]? = some v) := by
  induction pairs generalizing d with
  | nil => simp [insertAll, IsLast]
  | cons p pairs ih =>
    obtain ⟨j, u⟩ := p
    have first : (insertAll d ((j, u) :: pairs))[k]? = (insertAll (d.insert j u) pairs)[k]? := rfl
    have here : (d.insert j u)[k]? = if j = k then some u else d[k]? := by
      simp only [Std.TreeMap.getElem?_insert, Std.LawfulEqCmp.compare_eq_iff_eq]
    rw [first, ih, here, isLast_cons_iff, List.forall_mem_cons]
    by_cases same : j = k
    · simp only [same, if_true, Option.some.injEq, true_and, ne_eq, not_true, false_and, or_false,
        and_comm]
    · simp only [same, if_false, ne_eq, not_false_iff, true_and, false_and, or_false]

/-- Pairs gather to the entries in order of their keys of which the last one counts. -/
theorem toList_insertAll_eq_iff_gathers {pairs entries : List (String × Value)} :
    (insertAll ∅ pairs).toList = entries ↔ Gathers pairs entries := by
  have gathers : Gathers pairs (insertAll ∅ pairs).toList := by
    refine ⟨toList_increasing _, ?_⟩
    intro k v
    rw [Std.TreeMap.mem_toList_iff_getElem?_eq_some, getElem?_insertAll_eq_some_iff]
    simp
  constructor
  · rintro rfl
    exact gathers
  · intro h
    exact gathers.unique h

end Dict

end PackStream
