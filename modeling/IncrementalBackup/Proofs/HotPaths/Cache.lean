import IncrementalBackup.HotPaths.Snapshot
import IncrementalBackup.Proofs.OrderedMap

/-!
# What a hot path cache tells

Each operation on a cache by what the cache tells about packages afterwards. A cache is determined by
what it tells, and it is restored from its snapshot as it was.
-/

namespace IncrementalBackup

namespace HotPathCache

/-- Caches that tell the same about a package. -/
structure SameFor (package : String) (c c' : HotPathCache) : Prop where
  get? : ∀ category, c.get? package category = c'.get? package category
  lastChangedCategory? : c.lastChangedCategory? package = c'.lastChangedCategory? package

variable {package : String} {c c' c'' : HotPathCache}

theorem SameFor.refl (package : String) (c : HotPathCache) : SameFor package c c :=
  ⟨fun _ => rfl, rfl⟩

theorem SameFor.symm (h : SameFor package c c') : SameFor package c' c :=
  ⟨fun category => (h.get? category).symm, h.lastChangedCategory?.symm⟩

theorem SameFor.trans (h : SameFor package c c') (h' : SameFor package c' c'') :
    SameFor package c c'' :=
  ⟨fun category => (h.get? category).trans (h'.get? category),
    h.lastChangedCategory?.trans h'.lastChangedCategory?⟩

theorem eq_of_sameFor (h : ∀ package, SameFor package c c') : c = c' := by
  have hpaths : c.paths = c'.paths :=
    OrderedMap.ext_get? fun key => (h key.package).get? key.category
  have hlast : c.lastChanged = c'.lastChanged :=
    OrderedMap.ext_get? fun package => (h package).lastChangedCategory?
  obtain ⟨paths, lastChanged⟩ := c
  obtain rfl : paths = c'.paths := hpaths
  obtain rfl : lastChanged = c'.lastChanged := hlast
  rfl

theorem get?_recordChange (c : HotPathCache) (owner package : String)
    (category category' : DataCategory) (path : Path) :
    (c.recordChange owner category path).get? package category' =
      if package = owner ∧ category' = category then some path else c.get? package category' := by
  have hget := OrderedMap.get?_insert c.paths ⟨owner, category⟩ ⟨package, category'⟩ path
  simp only [HotPathKey.mk.injEq] at hget
  exact hget

theorem lastChangedCategory?_recordChange (c : HotPathCache) (owner package : String)
    (category : DataCategory) (path : Path) :
    (c.recordChange owner category path).lastChangedCategory? package =
      if package = owner then some category else c.lastChangedCategory? package :=
  OrderedMap.get?_insert ..

theorem SameFor.recordChange (h : SameFor package c c') (category : DataCategory) (path : Path) :
    SameFor package (c.recordChange package category path)
      (c'.recordChange package category path) where
  get? category' := by rw [get?_recordChange, get?_recordChange, h.get?]
  lastChangedCategory? := by
    rw [lastChangedCategory?_recordChange, lastChangedCategory?_recordChange,
      h.lastChangedCategory?]

theorem sameFor_recordChange_of_ne {owner : String} (hne : package ≠ owner) (c : HotPathCache)
    (category : DataCategory) (path : Path) :
    SameFor package (c.recordChange owner category path) c where
  get? category' := by rw [get?_recordChange, if_neg fun h => hne h.1]
  lastChangedCategory? := by rw [lastChangedCategory?_recordChange, if_neg hne]

/-! ## Forgetting -/

theorem get?_forget (c : HotPathCache) (owner package : String) (category : DataCategory) :
    (c.forget owner).get? package category =
      if package = owner then none else c.get? package category := by
  unfold forget get?
  rw [OrderedMap.get?_filterKeys]
  by_cases h : package = owner <;> simp [h]

theorem lastChangedCategory?_forget (c : HotPathCache) (owner package : String) :
    (c.forget owner).lastChangedCategory? package =
      if package = owner then none else c.lastChangedCategory? package := by
  unfold forget lastChangedCategory? OrderedMap.erase
  rw [OrderedMap.get?_filterKeys]
  by_cases h : package = owner
  · subst h
    have hself : Utf8.compare package package = .eq := Std.ReflCmp.compare_self
    simp [hself]
  · have hne : Utf8.compare owner package ≠ .eq := fun he =>
      h (Std.LawfulEqCmp.eq_of_compare he).symm
    simp [h, hne]

/-! ## What holds of all paths -/

def AllPaths (P : Path → Prop) (c : HotPathCache) : Prop :=
  ∀ package category path, c.get? package category = some path → P path

section

variable {P Q : Path → Prop}

theorem allPaths_empty (P : Path → Prop) : AllPaths P ∅ := nofun

theorem AllPaths.imp (h : c.AllPaths P) (himp : ∀ path, P path → Q path) : c.AllPaths Q :=
  fun package category path hget => himp path (h package category path hget)

theorem AllPaths.recordChange (h : c.AllPaths P) {path : Path} (hpath : P path) (owner : String)
    (category : DataCategory) : (c.recordChange owner category path).AllPaths P := by
  intro package category' path' hget
  rw [get?_recordChange] at hget
  split at hget
  · exact Option.some.inj hget ▸ hpath
  · exact h package category' path' hget

theorem AllPaths.forget (h : c.AllPaths P) (owner : String) : (c.forget owner).AllPaths P := by
  intro package category path hget
  rw [get?_forget] at hget
  split at hget
  · cases hget
  · exact h package category path hget

theorem AllPaths.snapshot (h : c.AllPaths P) : ∀ e ∈ c.snapshot.entries, P e.path := by
  intro e he
  obtain ⟨⟨key, path⟩, hmem, rfl⟩ := List.mem_map.mp he
  exact h key.package key.category path (OrderedMap.get?_eq_some_iff.mpr hmem)

end

/-! ## Restoring -/

/-- A snapshot is complete. -/
theorem ofSnapshot_snapshot (c : HotPathCache) : ofSnapshot c.snapshot = c := by
  have hentries : c.snapshot.entries.map (fun e => (⟨e.package, e.category⟩, e.path)) =
      c.paths.entries := by
    simp [snapshot, Function.comp_def]
  unfold ofSnapshot
  rw [hentries, OrderedMap.ofList_entries]
  rfl

end HotPathCache

end IncrementalBackup
