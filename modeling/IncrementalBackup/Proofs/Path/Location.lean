import IncrementalBackup.Path.Component

/-!
# Places above and below each other

In the order of places, everything below a place comes after it, and nothing else comes in between.
-/

namespace IncrementalBackup.Location

theorem startsWith_iff {l above : Location} : l.startsWith above = true ↔ above <+: l :=
  List.isPrefixOf_iff_prefix

theorem compare_append (l : Location) (c : Component) (below : Location) :
    compare l (l ++ c :: below) = .lt := by
  unfold compare
  induction l with
  | nil => exact List.compareLex_nil_cons
  | cons d l ih =>
    have hself : Component.compare d d = .eq := Std.ReflCmp.compare_self
    rw [List.cons_append, List.compareLex_cons_cons, hself, ih]
    rfl

/-- What lies between a place and something below it lies below it too. -/
theorem prefix_of_between {l a b : Location} (hb : l <+: b) (hla : compare l a = .lt)
    (hab : compare a b = .lt) : l <+: a := by
  unfold compare at hla hab
  induction l generalizing a b with
  | nil => exact List.nil_prefix
  | cons c l ih =>
    obtain ⟨rest, rfl⟩ := hb
    cases a with
    | nil => rw [List.compareLex_cons_nil] at hla; cases hla
    | cons d a =>
      rw [List.compareLex_cons_cons] at hla
      rw [List.cons_append, List.compareLex_cons_cons] at hab
      cases hcd : Component.compare c d with
      | lt =>
        have hdc : Component.compare d c = .gt := Std.OrientedCmp.gt_of_lt hcd
        rw [hdc] at hab
        cases hab
      | eq =>
        obtain rfl := Std.LawfulEqCmp.eq_of_compare hcd
        rw [hcd, Ordering.eq_then] at hla hab
        exact List.prefix_cons_inj c |>.mpr (ih (List.prefix_append l rest) hla hab)
      | gt =>
        rw [hcd] at hla
        cases hla

theorem parent?_eq_some_iff {l above : Location} :
    l.parent? = some above ↔ ∃ c, c ≠ .root ∧ l = above ++ [c] := by
  constructor
  · intro h
    unfold parent? at h
    cases hlast : l.getLast? with
    | none => simp [hlast] at h
    | some c =>
      have hl : l = l.dropLast ++ [c] := by
        have hne : l ≠ [] := by
          rintro rfl
          cases hlast
        rw [List.getLast?_eq_some_getLast hne] at hlast
        rw [← Option.some.inj hlast]
        exact (List.dropLast_concat_getLast hne).symm
      refine ⟨c, ?_, ?_⟩
      · rintro rfl
        simp [hlast] at h
      · cases c <;> simp [hlast] at h <;> rw [← h] <;> exact hl
  · rintro ⟨c, hc, rfl⟩
    rw [parent?, List.getLast?_concat, List.dropLast_concat]
    cases c <;> simp_all

theorem fileName?_eq_some_iff {l : Location} {name : List UInt8} :
    l.fileName? = some name ↔ l.getLast? = some (.name name) := by
  unfold fileName?
  cases hlast : l.getLast? with
  | none => simp
  | some c => cases c <;> simp

theorem mem_ancestors_iff {l above : Location} :
    above ∈ l.ancestors ↔ above ≠ [] ∧ above <+: l ∧ above ≠ l := by
  simp only [ancestors, List.mem_filterMap, List.mem_range]
  constructor
  · rintro ⟨n, hn, h⟩
    split at h
    · cases h
    · rename_i hzero
      obtain rfl := Option.some.inj h
      have hlength : (l.take n).length = n := by
        rw [List.length_take]
        omega
      refine ⟨?_, List.take_prefix n l, ?_⟩
      · intro hnil
        rw [hnil] at hlength
        exact hzero hlength.symm
      · intro heq
        rw [heq] at hlength
        omega
  · rintro ⟨hne, hle, hproper⟩
    have hlt : above.length < l.length :=
      Nat.lt_of_le_of_ne hle.length_le fun h => hproper (hle.eq_of_length h)
    refine ⟨above.length, hlt, ?_⟩
    rw [if_neg (by simpa using hne), ← List.prefix_iff_eq_take.mp hle]

theorem not_mem_ancestors_of_prefix {l above : Location} (h : above <+: l) :
    l ∉ above.ancestors := by
  intro hmem
  obtain ⟨-, hle, hproper⟩ := mem_ancestors_iff.mp hmem
  exact hproper (hle.eq_of_length_le h.length_le)

theorem mem_ancestors_trans {a l m : Location} (hal : a ∈ l.ancestors) (hlm : l ∈ m.ancestors) :
    a ∈ m.ancestors := by
  obtain ⟨hne, ha, hproper⟩ := mem_ancestors_iff.mp hal
  obtain ⟨-, hl, -⟩ := mem_ancestors_iff.mp hlm
  refine mem_ancestors_iff.mpr ⟨hne, ha.trans hl, ?_⟩
  rintro rfl
  exact hproper (ha.eq_of_length_le hl.length_le)

end IncrementalBackup.Location
