import IncrementalBackup.Proofs.Dedup.Effect

/-!
# Copies that fail unseen

A call goes on when a copy fails, and looks for the names in the end. A listing shows names as texts,
and two names that are no texts can be shown alike. So a copy fails unseen exactly when every name is
shown of some path that could be copied: then the call answers that the files are stored, and one of
them is not.
-/

namespace IncrementalBackup

namespace DedupStore

open MemoryTree Dedup

/-- Under the name of the path the directory has a file with the bytes of the path. They are those
that it had before, unless it is the directory itself, which is made anew. -/
def HoldsCopy (before after : MemoryTree) (dir p : Path) : Prop :=
  ∃ name n, p.fileName? = some name ∧ after.node? (dir.join ⟨name⟩).components = some n ∧
    n.kind = .file ∧ (∃ m, after.node p = .ok m ∧ n.data = m.data) ∧
    ∀ old, before.node? p.components = some old → p.components ≠ dir.components →
      n.data = old.data

/-- A call makes the directory of the key anew, every name of the set is shown of a path that can be
copied into it, and still there is a path that cannot. -/
def FailsUnseen (s : DedupStore) (package : String) (set : ApkSet) (t : MemoryTree) : Prop :=
  ∃ dir, MakesAnew s package set t dir ∧
    (∀ p ∈ set.filePaths, ∃ q ∈ set.filePaths, IsCopyable t dir q ∧ shownName q = shownName p) ∧
    ∃ p ∈ set.filePaths, ¬ IsCopyable t dir p

variable {s : DedupStore} {package : String} {set : ApkSet} {t : MemoryTree} {dir p : Path}
  {paths : List Path}

theorem isCopyable_of_holdsCopy (hnodup : (paths.filterMap Path.fileName?).Nodup) (hp : p ∈ paths)
    (h : HoldsCopy t (filled t dir paths) dir p) : IsCopyable t dir p := by
  obtain ⟨name, n, hname, hn, hkind, -⟩ := h
  rw [Path.components_join_of_isPlain dir (Path.isPlain_of_fileName? hname)] at hn
  obtain ⟨q, hq, hqname, hcopy⟩ := (hasFile_filled hnodup name).mp ⟨n, hn, hkind⟩
  obtain rfl := eq_of_fileName?_eq hnodup hp hq hname hqname
  exact hcopy

theorem holdsCopy_of_isCopyable (hnodup : (paths.filterMap Path.fileName?).Nodup) (hp : p ∈ paths)
    (h : IsCopyable t dir p) : HoldsCopy t (filled t dir paths) dir p := by
  obtain ⟨name, m, hname, hm, htarget⟩ := canCopy_renewed_iff.mpr h
  have hkept : (filled t dir paths).node? p.components = (renewed t dir).node? p.components := by
    apply node?_filled_of_ne
    intro other hinside
    have hself := h.eq_of_prefix (hinside ▸ List.prefix_append _ _)
    rw [hself] at hinside
    simp at hinside
  obtain ⟨hallowed, hread⟩ := node_eq_ok_iff.mp hm
  refine ⟨name, ⟨.file, (renewed t dir).now, m.data⟩, hname, ?_, rfl, ⟨m, ?_, rfl⟩, ?_⟩
  · rw [Path.components_join_of_isPlain dir (Path.isPlain_of_fileName? hname)]
    exact (node?_filled_name hnodup).mpr ⟨p, hp, hname, htarget, m, hm, rfl⟩
  · refine node_eq_ok_iff.mpr ⟨?_, hkept.trans hread⟩
    rwa [isAllowed_filled, ← (isRenewed_renewed t dir).allowed]
  · intro old hold hne
    have houtside : ¬ dir.components <+: p.components := fun hbelow => hne (h.eq_of_prefix hbelow)
    have hsame := (isRenewed_renewed t dir).kept _ old houtside hold
    rw [Option.some.inj (hread.symm.trans hsame)]

/-- A call that answers that it has copied its files has copied each of them, unless one fails unseen;
then it does answer so. Among names that are texts none fails unseen. -/
theorem stored_copies_every_path_iff (s : DedupStore) (package : String) (set : ApkSet)
    (t : MemoryTree) (hreach : t.Reachable) :
    ((∀ stored after, s.storeApks package set t = (.ok stored, after) → stored.reused = false →
        ∀ p ∈ set.filePaths, HoldsCopy t after stored.dir p) ↔ ¬ FailsUnseen s package set t) ∧
      (HasTextNames set.filePaths → ¬ FailsUnseen s package set t) := by
  refine ⟨⟨?_, ?_⟩, ?_⟩
  · rintro hcopies ⟨dir, hmakes, hshown, p, hp, hfails⟩
    have hnames := (missingNames_filled_eq_nil_iff hmakes.renews hmakes.names).mpr hshown
    have hstored := hmakes.storeApks_of_found hreach.wellFormed hnames
    exact hfails (isCopyable_of_holdsCopy hmakes.names hp (hcopies _ _ hstored rfl p hp))
  · intro hseen stored after hstored hcopied p hp
    have houtcome := outcome_storeApks s package set hreach.wellFormed
    rw [hstored] at houtcome
    cases houtcome with
    | reused dir hdir hmatch => cases hcopied
    | copied dir hmakes hnames =>
      apply holdsCopy_of_isCopyable hmakes.names hp
      by_contra hfails
      exact hseen ⟨dir, hmakes,
        (missingNames_filled_eq_nil_iff hmakes.renews hmakes.names).mp hnames, p, hp, hfails⟩
  · rintro htext ⟨dir, hmakes, hshown, p, hp, hfails⟩
    have hnames := (missingNames_filled_eq_nil_iff hmakes.renews hmakes.names).mpr hshown
    exact hfails (hmakes.isCopyable htext hnames p hp)

/-- Two paths whose names are no texts. Both names are shown as a replacement character. -/
def oddNames : ApkSet :=
  ⟨none, 1, [⟨[0x2F, 0x61, 0x2F, 0xFF]⟩, ⟨[0x2F, 0x62, 0x2F, 0xFE]⟩]⟩

def firstOdd : MemoryTree :=
  (MemoryTree.empty ⟨5⟩).addFile ⟨[0x2F, 0x61, 0x2F, 0xFF]⟩ [97, 98, 99] ⟨1⟩

theorem reachable_firstOdd : firstOdd.Reachable :=
  (MemoryTree.Reachable.empty ⟨5⟩).step (.addFile _ _ _)

/-- There is nothing to copy under the second name, but the first one is shown for it. -/
theorem stored_without_second_path :
    firstOdd.Reachable ∧ (keyedBySize.storeApks "p" oddNames firstOdd).1 =
        .ok ⟨⟨"1_1_3"⟩, .ofString "/s/p/1_1_3", false, 3⟩ ∧
      ∃ p ∈ oddNames.filePaths, ¬ HoldsCopy firstOdd
        (keyedBySize.storeApks "p" oddNames firstOdd).2 (.ofString "/s/p/1_1_3") p := by
  refine ⟨reachable_firstOdd, by decide, ⟨[0x2F, 0x62, 0x2F, 0xFE]⟩, by decide, ?_⟩
  rintro ⟨name, n, hname, hn, -⟩
  have hown : Path.fileName? ⟨[0x2F, 0x62, 0x2F, 0xFE]⟩ = some [0xFE] := by decide
  obtain rfl := Option.some.inj (hown.symm.trans hname)
  have hnone : (keyedBySize.storeApks "p" oddNames firstOdd).2.node?
      ((Path.ofString "/s/p/1_1_3").join ⟨[0xFE]⟩).components = none := by decide
  rw [hnone] at hn
  cases hn

def bothOdd : MemoryTree := firstOdd.addFile ⟨[0x2F, 0x62, 0x2F, 0xFE]⟩ [120, 121] ⟨1⟩

/-- If both paths are there, both are copied, although their names are shown alike. -/
theorem stored_with_both_paths :
    bothOdd.Reachable ∧ (keyedBySize.storeApks "p" oddNames bothOdd).1 =
        .ok ⟨⟨"1_2_5"⟩, .ofString "/s/p/1_2_5", false, 5⟩ ∧
      ∀ p ∈ oddNames.filePaths, HoldsCopy bothOdd
        (keyedBySize.storeApks "p" oddNames bothOdd).2 (.ofString "/s/p/1_2_5") p := by
  have hreach : bothOdd.Reachable := reachable_firstOdd.step (.addFile _ _ _)
  have hstored : (keyedBySize.storeApks "p" oddNames bothOdd).1 =
      .ok ⟨⟨"1_2_5"⟩, .ofString "/s/p/1_2_5", false, 5⟩ := by decide
  refine ⟨hreach, hstored, ?_⟩
  refine (stored_copies_every_path_iff keyedBySize "p" oddNames bothOdd hreach).1.mpr ?_ _ _
    (Prod.ext hstored rfl) rfl
  rintro ⟨dir, hmakes, -, p, hp, hfails⟩
  have hplace : keyedBySize.dedupDir "p" (computeKey bothOdd.view oddNames keyedBySize.config) =
      .ok (.ofString "/s/p/1_2_5") := by decide
  obtain rfl := Except.ok.inj (hplace.symm.trans hmakes.place)
  have hcopy : ∀ p ∈ oddNames.filePaths, IsCopyable bothOdd (.ofString "/s/p/1_2_5") p := by decide
  exact hfails (hcopy p hp)

end DedupStore

end IncrementalBackup
