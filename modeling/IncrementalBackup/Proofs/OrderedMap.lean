import IncrementalBackup.Comparison
import IncrementalBackup.OrderedMap

/-!
# What ordered maps hold

A look-up finds exactly the entries of a map; each operation is described by the look-ups in its
result. Since the keys increase, the entries from a key on are those whose key is not below it.
-/

namespace IncrementalBackup.OrderedMap

variable {κ ν : Type} {cmp : κ → κ → Ordering}

theorem contains_iff {m : OrderedMap κ ν cmp} {k : κ} :
    m.contains k = true ↔ ∃ v, m.get? k = some v := Option.isSome_iff_exists

section

variable [Std.TransCmp cmp]

theorem ne_of_compare_lt {a b : κ} (h : cmp a b = .lt) : a ≠ b := by
  rintro rfl
  have hself : cmp a a = .eq := Std.ReflCmp.compare_self
  rw [hself] at h
  cases h

theorem ne_of_compare_gt {a b : κ} (h : cmp a b = .gt) : a ≠ b :=
  (ne_of_compare_lt (Std.OrientedCmp.lt_of_gt h)).symm

/-- Keys that come later in a list are above every key that is not above its first one. -/
theorem ne_of_mem_of_compare_lt {k : κ} {e : κ × ν} {l : List (κ × ν)} {b : κ × ν}
    (hlt : cmp k e.1 = .lt) (hhead : ∀ b ∈ l, cmp e.1 b.1 = .lt) (hb : b ∈ e :: l) : b.1 ≠ k := by
  rcases List.mem_cons.mp hb with rfl | hb
  · exact (ne_of_compare_lt hlt).symm
  · exact (ne_of_compare_lt (Std.TransCmp.lt_trans hlt (hhead b hb))).symm

/-- Increasing lists of the same members are the same. -/
theorem eq_of_mem_iff {l l' : List κ} (hl : l.Pairwise (fun a b => cmp a b = .lt))
    (hl' : l'.Pairwise (fun a b => cmp a b = .lt)) (hmem : ∀ a, a ∈ l ↔ a ∈ l') : l = l' := by
  have hnodup : l.Nodup := hl.imp ne_of_compare_lt
  have hnodup' : l'.Nodup := hl'.imp ne_of_compare_lt
  refine List.Perm.eq_of_pairwise ?_ hl hl' ((List.perm_ext_iff_of_nodup hnodup hnodup').mpr hmem)
  intro a b _ _ hab hba
  rw [Std.OrientedCmp.gt_of_lt hba] at hab
  cases hab

theorem pairwise_isLE_mergeSort (l : List κ) :
    (l.mergeSort fun a b => (cmp a b).isLE).Pairwise fun a b => (cmp a b).isLE = true := by
  apply List.pairwise_mergeSort
  · intro a b c hab hbc
    exact Std.TransCmp.isLE_trans hab hbc
  · intro a b
    cases hcmp : cmp a b with
    | lt => rfl
    | eq => rfl
    | gt => rw [Std.OrientedCmp.lt_of_gt hcmp]; rfl

/-- Members of an increasing list are equal if they compare so. -/
theorem eq_of_compare_eq {l : List κ} (hl : l.Pairwise (fun a b => cmp a b = .lt)) {a b : κ}
    (ha : a ∈ l) (hb : b ∈ l) (h : cmp a b = .eq) : a = b := by
  have hne : ∀ ⦃a⦄, a ∈ l → ∀ ⦃b⦄, b ∈ l → cmp a b = .eq → a = b := by
    refine List.Pairwise.forall_of_forall_of_flip (fun _ _ _ => rfl) (hl.imp ?_) (hl.imp ?_)
    · intro a b hlt heq
      rw [hlt] at heq
      cases heq
    · intro a b hlt heq
      rw [Std.OrientedCmp.gt_of_lt hlt] at heq
      cases heq
  exact hne ha hb h

/-- An increasing list is what sorting makes of its members in any order. -/
theorem mergeSort_eq_of_perm {l l' : List κ} (h : l.Perm l')
    (hl' : l'.Pairwise (fun a b => cmp a b = .lt)) :
    l.mergeSort (fun a b => (cmp a b).isLE) = l' := by
  have hle : l'.Pairwise fun a b => (cmp a b).isLE = true :=
    hl'.imp fun hlt => by rw [hlt]; rfl
  refine List.Perm.eq_of_pairwise ?_ (pairwise_isLE_mergeSort l) hle
    ((List.mergeSort_perm l _).trans h)
  intro a b ha hb hab hba
  exact eq_of_compare_eq hl' (h.mem_iff.mp (List.mem_mergeSort.mp ha)) hb
    (Std.OrientedCmp.isLE_antisymm hab hba)

/-- A key above all keys of a list goes to its end. -/
theorem place_of_lt {k : κ} {v : ν} {l : List (κ × ν)} (h : ∀ e ∈ l, cmp e.1 k = .lt) :
    place cmp k v l = l ++ [(k, v)] := by
  induction l with
  | nil => rfl
  | cons e l ih =>
    obtain ⟨hhead, htail⟩ := List.forall_mem_cons.mp h
    rw [place, Std.OrientedCmp.gt_of_lt hhead, ih htail]
    rfl

variable [Std.LawfulEqCmp cmp]

theorem lookup_eq_some_iff {k : κ} {v : ν} {l : List (κ × ν)}
    (hl : l.Pairwise (fun a b => cmp a.1 b.1 = .lt)) :
    lookup cmp k l = some v ↔ (k, v) ∈ l := by
  induction l with
  | nil => simp [lookup]
  | cons e l ih =>
    obtain ⟨k', v'⟩ := e
    obtain ⟨hhead, htail⟩ := List.pairwise_cons.mp hl
    rw [lookup]
    cases hcmp : cmp k k' with
    | lt =>
      have hnot : (k, v) ∉ (k', v') :: l := fun hmem =>
        ne_of_mem_of_compare_lt hcmp hhead hmem rfl
      simp [hnot]
    | eq =>
      obtain rfl := Std.LawfulEqCmp.eq_of_compare hcmp
      have hnot : (k, v) ∉ l := fun hmem => ne_of_compare_lt (hhead _ hmem) rfl
      simp [hnot, eq_comm]
    | gt =>
      have hne : k ≠ k' := ne_of_compare_gt hcmp
      simp [ih htail, hne]

theorem get?_eq_some_iff {m : OrderedMap κ ν cmp} {k : κ} {v : ν} :
    m.get? k = some v ↔ (k, v) ∈ m.entries := lookup_eq_some_iff m.increasing

theorem ext_get? {m m' : OrderedMap κ ν cmp} (h : ∀ k, m.get? k = m'.get? k) : m = m' := by
  have hentries : m.entries = m'.entries := by
    have hmem : ∀ e, e ∈ m.entries ↔ e ∈ m'.entries := fun e => by
      rw [← get?_eq_some_iff, ← get?_eq_some_iff, h]
    exact eq_of_mem_iff (show m.entries.Pairwise (fun a b => compareBy Prod.fst cmp a b = .lt)
      from m.increasing) m'.increasing hmem
  obtain ⟨entries, increasing⟩ := m
  obtain rfl : entries = m'.entries := hentries
  rfl

theorem mem_place_iff {k : κ} {v : ν} {e : κ × ν} {l : List (κ × ν)}
    (hl : l.Pairwise (fun a b => cmp a.1 b.1 = .lt)) :
    e ∈ place cmp k v l ↔ e = (k, v) ∨ (e ∈ l ∧ e.1 ≠ k) := by
  induction l with
  | nil => simp [place]
  | cons e' l ih =>
    obtain ⟨k', v'⟩ := e'
    obtain ⟨hhead, htail⟩ := List.pairwise_cons.mp hl
    rw [place]
    cases hcmp : cmp k k' with
    | lt =>
      constructor
      · intro h
        rcases List.mem_cons.mp h with h | h
        · exact .inl h
        · exact .inr ⟨h, ne_of_mem_of_compare_lt hcmp hhead h⟩
      · rintro (h | ⟨h, -⟩)
        · exact List.mem_cons.mpr (.inl h)
        · exact List.mem_cons_of_mem _ h
    | eq =>
      obtain rfl := Std.LawfulEqCmp.eq_of_compare hcmp
      constructor
      · intro h
        rcases List.mem_cons.mp h with h | h
        · exact .inl h
        · exact .inr ⟨List.mem_cons_of_mem _ h, (ne_of_compare_lt (hhead e h)).symm⟩
      · rintro (h | ⟨h, hk⟩)
        · exact List.mem_cons.mpr (.inl h)
        · rcases List.mem_cons.mp h with rfl | h
          · exact absurd rfl hk
          · exact List.mem_cons_of_mem _ h
    | gt =>
      have hne : k' ≠ k := (ne_of_compare_gt hcmp).symm
      simp only [List.mem_cons, ih htail]
      constructor
      · rintro (rfl | h | ⟨h, hk⟩)
        · exact .inr ⟨.inl rfl, hne⟩
        · exact .inl h
        · exact .inr ⟨.inr h, hk⟩
      · rintro (h | ⟨h | h, hk⟩)
        · exact .inr (.inl h)
        · exact .inl h
        · exact .inr (.inr ⟨h, hk⟩)

theorem get?_insert [DecidableEq κ] (m : OrderedMap κ ν cmp) (k k' : κ) (v : ν) :
    (m.insert k v).get? k' = if k' = k then some v else m.get? k' := by
  ext w
  rw [get?_eq_some_iff]
  change (k', w) ∈ place cmp k v m.entries ↔ _
  rw [mem_place_iff m.increasing, ← get?_eq_some_iff]
  by_cases h : k' = k
  · simp [h, eq_comm]
  · simp [h]

theorem entries_foldl_insert (m : OrderedMap κ ν cmp) {l : List (κ × ν)}
    (h : (m.entries ++ l).Pairwise (fun a b => cmp a.1 b.1 = .lt)) :
    (l.foldl (fun m e => m.insert e.1 e.2) m).entries = m.entries ++ l := by
  induction l generalizing m with
  | nil => exact (List.append_nil _).symm
  | cons e l ih =>
    have hinsert : (m.insert e.1 e.2).entries = m.entries ++ [e] :=
      place_of_lt fun a ha => (List.pairwise_append.mp h).2.2 a ha e List.mem_cons_self
    rw [List.foldl_cons, ih, hinsert, List.append_assoc, List.singleton_append]
    rwa [hinsert, List.append_assoc, List.singleton_append]

/-- Of the pairs with one key the last one counts. -/
theorem get?_foldl_insert [DecidableEq κ] (m : OrderedMap κ ν cmp) (l : List (κ × ν)) (k : κ) :
    (l.foldl (fun m e => m.insert e.1 e.2) m).get? k =
      ((l.filter fun e => e.1 = k).getLast?.map Prod.snd).or (m.get? k) := by
  induction l generalizing m with
  | nil => rfl
  | cons e l ih =>
    rw [List.foldl_cons, ih, get?_insert]
    by_cases hk : e.1 = k
    · rw [if_pos hk.symm, List.filter_cons_of_pos (by simpa using hk), List.getLast?_cons]
      cases (l.filter fun e => e.1 = k).getLast? <;> rfl
    · rw [if_neg (Ne.symm hk), List.filter_cons_of_neg (by simpa using hk)]

theorem get?_ofList [DecidableEq κ] (l : List (κ × ν)) (k : κ) :
    (ofList l : OrderedMap κ ν cmp).get? k = (l.filter fun e => e.1 = k).getLast?.map Prod.snd := by
  rw [ofList, get?_foldl_insert]
  exact Option.or_none

theorem ofList_entries (m : OrderedMap κ ν cmp) : ofList m.entries = m := by
  have hentries : (ofList m.entries).entries = m.entries := entries_foldl_insert ∅ m.increasing
  exact ext_get? fun k => by rw [get?, get?, hentries]

theorem get?_filterKeys (m : OrderedMap κ ν cmp) (keep : κ → Bool) (k : κ) :
    (m.filterKeys keep).get? k = if keep k then m.get? k else none := by
  ext v
  rw [get?_eq_some_iff]
  change (k, v) ∈ m.entries.filter (fun e => keep e.1) ↔ _
  rw [List.mem_filter, ← get?_eq_some_iff]
  by_cases h : keep k = true
  · simp [h]
  · simp [h]

theorem filterKeys_eq_self {m : OrderedMap κ ν cmp} {keep : κ → Bool}
    (h : ∀ k v, m.get? k = some v → keep k = true) : m.filterKeys keep = m := by
  have hentries : m.entries.filter (fun e => keep e.1) = m.entries := by
    apply List.filter_eq_self.mpr
    intro e he
    exact h e.1 e.2 (get?_eq_some_iff.mpr he)
  obtain ⟨entries, increasing⟩ := m
  simp only [filterKeys, OrderedMap.mk.injEq]
  exact hentries

theorem get?_insertIfNew [DecidableEq κ] (m : OrderedMap κ ν cmp) (k k' : κ) (v : ν) :
    (m.insertIfNew k v).get? k' = if k' = k then some ((m.get? k).getD v) else m.get? k' := by
  unfold insertIfNew contains
  cases hk : m.get? k with
  | none => simp [get?_insert]
  | some w =>
    by_cases h : k' = k
    · simp [h, hk]
    · simp [h]

theorem get?_foldl_insertIfNew [DecidableEq κ] (keys : List κ) (v : ν) (m : OrderedMap κ ν cmp)
    (k : κ) :
    (keys.foldl (fun m a => m.insertIfNew a v) m).get? k =
      if k ∈ keys then some ((m.get? k).getD v) else m.get? k := by
  induction keys generalizing m with
  | nil => simp
  | cons a keys ih =>
    rw [List.foldl_cons, ih, get?_insertIfNew]
    by_cases ha : k = a
    · subst ha
      by_cases hk : k ∈ keys <;> simp [hk]
    · simp [ha]

theorem get?_modify [DecidableEq κ] (m : OrderedMap κ ν cmp) (k k' : κ) (f : ν → ν) :
    (m.modify k f).get? k' = if k' = k then (m.get? k).map f else m.get? k' := by
  unfold modify
  cases hk : m.get? k with
  | none =>
    by_cases h : k' = k
    · simp [h, hk]
    · simp [h]
  | some w => simp [get?_insert]

end

/-! ## Stretches of a sorted list -/

theorem takeWhile_eq_filter {α : Type} {p : α → Bool} {l : List α}
    (hl : l.Pairwise (fun a b => p b = true → p a = true)) : l.takeWhile p = l.filter p := by
  induction l with
  | nil => rfl
  | cons a l ih =>
    obtain ⟨hhead, htail⟩ := List.pairwise_cons.mp hl
    by_cases ha : p a = true
    · rw [List.takeWhile_cons_of_pos ha, List.filter_cons_of_pos ha, ih htail]
    · have hnone : l.filter p = [] :=
        List.filter_eq_nil_iff.mpr fun b hb hp => ha (hhead b hb hp)
      rw [List.takeWhile_cons_of_neg ha, List.filter_cons_of_neg ha, hnone]

theorem dropWhile_eq_filter {α : Type} {p : α → Bool} {l : List α}
    (hl : l.Pairwise (fun a b => p b = true → p a = true)) :
    l.dropWhile p = l.filter (fun a => !p a) := by
  induction l with
  | nil => rfl
  | cons a l ih =>
    obtain ⟨hhead, htail⟩ := List.pairwise_cons.mp hl
    by_cases ha : p a = true
    · rw [List.dropWhile_cons_of_pos ha, List.filter_cons_of_neg (by simp [ha]), ih htail]
    · have hall : (a :: l).filter (fun a => !p a) = a :: l := by
        apply List.filter_eq_self.mpr
        intro b hb
        rcases List.mem_cons.mp hb with rfl | hb
        · simpa using ha
        · have hnot : ¬ p b = true := fun h => ha (hhead b hb h)
          simpa using hnot
      rw [List.dropWhile_cons_of_neg ha, hall]

theorem entriesFrom_eq_filter [Std.TransCmp cmp] (m : OrderedMap κ ν cmp) (k : κ) :
    m.entriesFrom k = m.entries.filter (fun e => cmp e.1 k != .lt) := by
  refine dropWhile_eq_filter (m.increasing.imp fun {a b} hlt hb => ?_)
  have hb : cmp b.1 k = .lt := by simpa using hb
  simpa using Std.TransCmp.lt_trans hlt hb

end IncrementalBackup.OrderedMap
