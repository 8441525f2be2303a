import IncrementalBackup.Proofs.Dedup.Outcome

/-!
# What a failed call leaves of the store

A call that stores files and fails leaves the tree as it was, unless it has begun to make the
directory of the key anew. So it loses files exactly when it empties a directory that holds some and
then cannot fill it: the key of a set with missing files can be that of a set stored before.
-/

namespace IncrementalBackup

namespace DedupStore

open MemoryTree Dedup

variable {s : DedupStore} {package : String} {set : ApkSet} {t : MemoryTree} {dir : Path}

/-- Every file strictly below a place is still there, with its bytes. -/
def KeepsFiles (root : Location) (before after : MemoryTree) : Prop :=
  ∀ l n, root <+: l → l ≠ root → before.node? l = some n → n.kind = .file →
    ∃ m, after.node? l = some m ∧ m.kind = .file ∧ m.data = n.data

/-- The directory under the key of a set holds files of the store, but not one for each name of the
set, and even when it is emptied some name of the set can be copied under no path. -/
def IsEmptiedInVain (s : DedupStore) (package : String) (set : ApkSet) (t : MemoryTree) : Prop :=
  duplicateName? set.filePaths = none ∧
    ∃ dir, s.dedupDir package (computeKey t.view set s.config) = .ok dir ∧
      t.view.isDirectory dir = true ∧ ¬ verifyMatch t.view dir set.filePaths = true ∧
      (∃ p ∈ set.filePaths, ∀ q ∈ set.filePaths,
        IsCopiedAnew t dir q → shownName q ≠ shownName p) ∧
      ∃ l n, t.node? l = some n ∧ n.kind = .file ∧ s.root.components <+: l ∧
        l ≠ s.root.components ∧ dir.components <+: l

theorem failed_storeApks_of_isEmptiedInVain (hwf : t.WellFormed)
    (h : IsEmptiedInVain s package set t) :
    (∃ e, (s.storeApks package set t).1 = .error e) ∧
      ¬ KeepsFiles s.root.components t (s.storeApks package set t).2 := by
  obtain ⟨hnodup, dir, hdir, hdirectory, hverify, ⟨p, hp, hmissing⟩, l, n, hn, hkind, hroot,
    hproper, hbelow⟩ := h
  have hmakes : MakesAnew s package set t dir := ⟨hdir, List.ne_nil_of_mem hp,
    duplicateName?_eq_none_iff.mp hnodup, hverify, canRenew_of_isDirectory hdirectory⟩
  have hnames : missingNames (filled t dir set.filePaths).view dir set.filePaths ≠ [] := by
    intro hnil
    obtain ⟨q, hq, hcopy, hshown⟩ :=
      (missingNames_filled_eq_nil_iff hmakes.renews hmakes.names).mp hnil p hp
    exact hmissing q hq ((isCopiedAnew_iff_isCopyable hwf hdirectory).mpr hcopy) hshown
  rw [hmakes.storeApks_of_missing hwf hnames]
  refine ⟨⟨_, rfl⟩, ?_⟩
  intro hkeeps
  obtain ⟨m, hm, -⟩ := hkeeps l n hroot hproper hn hkind
  rw [node?_without, if_pos hbelow] at hm
  cases hm

/-- A directory that has lost a file was there and has been emptied in vain. -/
theorem MakesAnew.isEmptiedInVain (hwf : t.WellFormed) (h : MakesAnew s package set t dir)
    (hnames : missingNames (filled t dir set.filePaths).view dir set.filePaths ≠ []) {l : Location}
    {n : MemoryNode} (hn : t.node? l = some n) (hkind : n.kind = .file)
    (hroot : s.root.components <+: l) (hproper : l ≠ s.root.components)
    (hbelow : dir.components <+: l) : IsEmptiedInVain s package set t := by
  obtain ⟨d, hd⟩ : ∃ d, t.node? dir.components = some d := by
    by_cases hself : dir.components = l
    · exact ⟨n, hself ▸ hn⟩
    · exact hwf.above hn _ (Location.mem_ancestors_iff.mpr
        ⟨components_dedupDir_ne_nil h.place, hbelow, hself⟩)
  have hdirectory := isDirectory_view_iff.mpr ⟨d, h.renews.allowed, hd, h.renews.directory d hd⟩
  refine ⟨duplicateName?_eq_none_iff.mpr h.names, dir, h.place, hdirectory, h.differs, ?_, l, n, hn,
    hkind, hroot, hproper, hbelow⟩
  by_contra hnone
  refine hnames ((missingNames_filled_eq_nil_iff h.renews h.names).mpr fun p hp => ?_)
  by_contra hmissing
  exact hnone ⟨p, hp, fun q hq hcopy hshown => hmissing
    ⟨q, hq, (isCopiedAnew_iff_isCopyable hwf hdirectory).mp hcopy, hshown⟩⟩

theorem keepsFiles_of_failed_storeApks (hwf : t.WellFormed)
    (hnot : ¬ IsEmptiedInVain s package set t)
    (herror : ∃ e, (s.storeApks package set t).1 = .error e) :
    KeepsFiles s.root.components t (s.storeApks package set t).2 := by
  intro l n hroot hproper hn hkind
  have houtcome := outcome_storeApks s package set hwf
  generalize s.storeApks package set t = result at herror houtcome ⊢
  obtain ⟨e, he⟩ := herror
  cases houtcome with
  | rejected e he => exact ⟨n, hn, hkind, rfl⟩
  | reused dir hdir hmatch => cases he
  | copied dir hmakes hnames => cases he
  | incomplete dir hmakes hnames =>
    have houtside : ¬ dir.components <+: l := fun hbelow =>
      hnot (hmakes.isEmptiedInVain hwf hnames hn hkind hroot hproper hbelow)
    exact ⟨n, (keepsOutside_filled t dir _).without.kept l n houtside hn, hkind, rfl⟩

/-- A failed call keeps the files below the root of the store, unless it empties a directory of files
in vain; then it does fail, and does not keep them. -/
theorem failed_storeApks_keeps_files_iff (s : DedupStore) (package : String) (set : ApkSet)
    (t : MemoryTree) (hreach : t.Reachable) :
    ((∃ e, (s.storeApks package set t).1 = .error e) →
        KeepsFiles s.root.components t (s.storeApks package set t).2) ↔
      ¬ IsEmptiedInVain s package set t := by
  constructor
  · intro hkeeps hvain
    obtain ⟨herror, hlost⟩ := failed_storeApks_of_isEmptiedInVain hreach.wellFormed hvain
    exact hlost (hkeeps herror)
  · intro hnot herror
    exact keepsFiles_of_failed_storeApks hreach.wellFormed hnot herror

/-- A store whose keys are made from the number of files and their sizes. -/
def keyedBySize : DedupStore :=
  ⟨.ofString "/s", { DedupConfig.default with strategy := .metadata }⟩

/-- Two files, and a copy of the first one in the store. -/
def storedFirst : MemoryTree :=
  (((MemoryTree.empty ⟨0⟩).addFile (.ofString "/a") [1, 2, 3] ⟨1⟩).addFile (.ofString "/b") [1, 2]
    ⟨1⟩).addFile (.ofString "/s/p/1_1_3/a") [1, 2, 3] ⟨1⟩

theorem reachable_storedFirst : storedFirst.Reachable :=
  (((MemoryTree.Reachable.empty ⟨0⟩).step (.addFile _ _ _)).step (.addFile _ _ _)).step
    (.addFile _ _ _)

/-- A file that is not there adds nothing to the size, so the key is that of the directory that is
complete for the first file alone. The call empties it and fails. -/
theorem failed_storeApks_loses_stored_file :
    storedFirst.Reachable ∧ isPackageName "p" = true ∧
      (keyedBySize.storeApks "p" ⟨none, 1, [.ofString "/a"]⟩ storedFirst).1 =
        .ok ⟨⟨"1_1_3"⟩, .ofString "/s/p/1_1_3", true, 0⟩ ∧
      (keyedBySize.storeApks "p" ⟨none, 1, [.ofString "/a", .ofString "/gone"]⟩ storedFirst).1 =
        .error (.incomplete ⟨"1_1_3"⟩ ["gone"]) ∧
      ¬ KeepsFiles keyedBySize.root.components storedFirst
        (keyedBySize.storeApks "p" ⟨none, 1, [.ofString "/a", .ofString "/gone"]⟩
          storedFirst).2 := by
  refine ⟨reachable_storedFirst, by decide, by decide, by decide, fun hkeeps => ?_⟩
  have hlost : (keyedBySize.storeApks "p" ⟨none, 1, [.ofString "/a", .ofString "/gone"]⟩
      storedFirst).2.node? (Path.ofString "/s/p/1_1_3/a").components = none := by decide
  obtain ⟨m, hm, -⟩ := hkeeps (Path.ofString "/s/p/1_1_3/a").components ⟨.file, ⟨1⟩, [1, 2, 3]⟩
    (by decide) (by decide) (by decide) rfl
  rw [hlost] at hm
  cases hm

/-- The second file has a key of its own: the call fails as well, and the first copy stays. -/
theorem failed_storeApks_keeps_other_directory :
    storedFirst.Reachable ∧
      (keyedBySize.storeApks "p" ⟨none, 1, [.ofString "/b", .ofString "/gone"]⟩ storedFirst).1 =
        .error (.incomplete ⟨"1_1_2"⟩ ["gone"]) ∧
      KeepsFiles keyedBySize.root.components storedFirst
        (keyedBySize.storeApks "p" ⟨none, 1, [.ofString "/b", .ofString "/gone"]⟩
          storedFirst).2 := by
  have herror : (keyedBySize.storeApks "p" ⟨none, 1, [.ofString "/b", .ofString "/gone"]⟩
      storedFirst).1 = .error (.incomplete ⟨"1_1_2"⟩ ["gone"]) := by decide
  refine ⟨reachable_storedFirst, herror, ?_⟩
  refine (failed_storeApks_keeps_files_iff keyedBySize "p" _ storedFirst
    reachable_storedFirst).mpr ?_ ⟨_, herror⟩
  rintro ⟨-, dir, hdir, hdirectory, -⟩
  have hsame : keyedBySize.dedupDir "p" (computeKey storedFirst.view
      ⟨none, 1, [.ofString "/b", .ofString "/gone"]⟩ keyedBySize.config) =
      .ok (.ofString "/s/p/1_1_2") := by decide
  obtain rfl := Except.ok.inj (hsame.symm.trans hdir)
  exact absurd hdirectory (by decide)

end DedupStore

end IncrementalBackup
