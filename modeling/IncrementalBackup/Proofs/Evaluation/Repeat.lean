import IncrementalBackup.Proofs.Evaluation.Decision
import IncrementalBackup.Proofs.HotPaths.Cache
import IncrementalBackup.Proofs.Scan.Replay

/-!
# Evaluating again

An evaluation that finds a change prefers its category and its path from then on. The next one scans
the directories of this category first, with that path as the hint. A directory that has been passed
before can now only report a change at the hint, and the directory of the change does so, whichever
comes first. So the same category and the same path are found again.
-/

namespace IncrementalBackup

theorem HotPathCache.recordChange_recordChange (c : HotPathCache) (package : String)
    (category : DataCategory) (path : Path) :
    (c.recordChange package category path).recordChange package category path =
      c.recordChange package category path := by
  refine eq_of_sameFor fun other => ⟨fun category' => ?_, ?_⟩
  · rw [get?_recordChange, get?_recordChange]
    split <;> rfl
  · rw [lastChangedCategory?_recordChange, lastChangedCategory?_recordChange]
    split <;> rfl

/-- A scan that reports nothing under its own hint reports under another one at most that hint. -/
theorem Scan.foundPath_of_unchanged {view : View} {request : ScanRequest} {hint : Option Path}
    {path : Path} {time : Instant} (hold : scan view request = .unchanged)
    (h : scan view { request with hint } = .changed path time) : hint = some path := by
  obtain ⟨root, hroot, hdir, ⟨stats, hhot⟩ | ⟨n, hfirst, hnewer, -⟩⟩ := scan_eq_changed h
  · obtain ⟨given, _, _, _, _, hresult, -, husable, -⟩ := hotPath_eq_some hhot
    cases hresult
    exact (usableHint?_eq_some_iff.mp husable).1
  · -- The full scan does not look at hints, so it has found the node before.
    have hchanged : (scan view request).hasChanges = true :=
      hasChanges_scan_iff.mpr ⟨root, hroot, hdir, .inr
        ⟨n, List.mem_of_find?_eq_some hfirst, time, newer?_eq_some.mp hnewer⟩⟩
    rw [hold] at hchanged
    cases hchanged

namespace Evaluation

variable {view : View} {options : ScanOptions} {package : String} {since : Instant}
  {cache : HotPathCache} {category : DataCategory} {path : Path}

/-- The directory of a change and those that were scanned before it without one. -/
theorem firstChanged_eq_some {dirs : List (DataCategory × Path)}
    (h : firstChanged view options cache package since dirs = some (category, path)) :
    ∃ before dir after, dirs = before ++ dir :: after ∧ dir.1 = category ∧
      (∀ d ∈ before, scan view (request options cache package since d) = .unchanged) ∧
      ∃ time, scan view (request options cache package since dir) = .changed path time := by
  induction dirs with
  | nil => cases h
  | cons dir dirs ih =>
    rw [firstChanged] at h
    cases hscan : scan view (request options cache package since dir) with
    | unchanged =>
      rw [hscan] at h
      obtain ⟨before, found, after, rfl, hcategory, hbefore, hfound⟩ := ih h
      exact ⟨dir :: before, found, after, rfl, hcategory,
        List.forall_mem_cons.mpr ⟨hscan, hbefore⟩, hfound⟩
    | changed other time =>
      rw [hscan] at h
      cases h
      exact ⟨[], dir, dirs, rfl, rfl, fun d hd => absurd hd List.not_mem_nil, time, hscan⟩

/-- The directories of a category stay in the order in which they were declared. -/
theorem filter_ordered (preferred : Option DataCategory) (dirs : List (DataCategory × Path)) :
    (ordered preferred dirs).filter (fun d => some d.1 == some category) =
      dirs.filter (fun d => some d.1 == some category) := by
  rw [ordered, List.filter_append, List.filter_filter, List.filter_filter]
  by_cases h : some category = preferred
  · subst h
    simp
  · have hnone : dirs.filter (fun d => some d.1 == some category && some d.1 == preferred) = [] := by
      rw [List.filter_eq_nil_iff]
      rintro d - hd
      simp only [Bool.and_eq_true, beq_iff_eq] at hd
      exact h (hd.1.symm.trans hd.2)
    rw [hnone, List.nil_append]
    refine List.filter_congr fun d _ => ?_
    by_cases hd : d.1 = category
    · simp [hd, h]
    · simp [hd]

/-- After a change has been recorded, the scans of its category have its path as their hint. -/
theorem request_recordChange (huse : options.useHotPath = true) {dir : DataCategory × Path}
    (hdir : dir.1 = category) :
    request options (cache.recordChange package category path) package since dir =
      { request options cache package since dir with hint := some path } := by
  rw [request, request, if_pos huse, HotPathCache.get?_recordChange, if_pos ⟨rfl, hdir⟩]

theorem firstChanged_recordChange (huse : options.useHotPath = true)
    {before after : List (DataCategory × Path)} {dir : DataCategory × Path} {time : Instant}
    (hbefore : ∀ d ∈ before, d.1 = category ∧
      scan view (request options cache package since d) = .unchanged)
    (hcategory : dir.1 = category)
    (hdir : scan view { request options cache package since dir with hint := some path } =
      .changed path time) :
    firstChanged view options (cache.recordChange package category path) package since
      (before ++ dir :: after) = some (category, path) := by
  induction before with
  | nil =>
    rw [List.nil_append, firstChanged, request_recordChange huse hcategory, hdir, hcategory]
  | cons d before ih =>
    obtain ⟨⟨hd, hold⟩, hbefore⟩ := List.forall_mem_cons.mp hbefore
    rw [List.cons_append, firstChanged, request_recordChange huse hd]
    cases hscan : scan view { request options cache package since d with hint := some path } with
    | unchanged => exact ih hbefore
    | changed other found =>
      obtain rfl := Option.some.inj (Scan.foundPath_of_unchanged hold hscan)
      rw [hd]

/-- What has been found first is found first again after it has been recorded. -/
theorem firstChanged_again {t : MemoryTree} (hreach : t.Reachable)
    (huse : options.useHotPath = true) {preferred : Option DataCategory}
    {dirs : List (DataCategory × Path)}
    (h : firstChanged t.view options cache package since (ordered preferred dirs) =
      some (category, path)) :
    firstChanged t.view options (cache.recordChange package category path) package since
      (ordered (some category) dirs) = some (category, path) := by
  obtain ⟨before, dir, after, horder, rfl, hbefore, time, hdir⟩ := firstChanged_eq_some h
  have hfirst : dirs.filter (fun d => some d.1 == some dir.1) =
      before.filter (fun d => some d.1 == some dir.1) ++
        dir :: after.filter (fun d => some d.1 == some dir.1) := by
    rw [← filter_ordered preferred, horder, List.filter_append, List.filter_cons_of_pos (by simp)]
  rw [ordered, hfirst, List.append_assoc, List.cons_append]
  refine firstChanged_recordChange huse (fun d hd => ?_) rfl (Scan.scan_of_found_path hreach hdir)
  obtain ⟨hmem, hcategory⟩ := List.mem_filter.mp hd
  exact ⟨by simpa using hcategory, hbefore d hmem⟩

/-- A second evaluation makes the same decision as the first one and leaves the cache as the first one
has left it. -/
theorem evaluate_again (t : MemoryTree) (options : ScanOptions) (package : PackageDirs)
    (lastBackup : Option Instant) (cache : HotPathCache) (hreach : t.Reachable) :
    evaluate t.view options package lastBackup
        (evaluate t.view options package lastBackup cache).2 =
      evaluate t.view options package lastBackup cache := by
  cases lastBackup with
  | none => rfl
  | some since =>
    cases hfirst : firstChanged t.view options cache package.package since
        (ordered (preferred? options cache package.package) package.dirs) with
    | none => simp only [evaluate, hfirst]
    | some found =>
      obtain ⟨category, path⟩ := found
      rw [evaluate_of_firstChanged hfirst]
      by_cases huse : options.useHotPath = true
      · have hpreferred : preferred? options
            (cache.recordChange package.package category path) package.package = some category := by
          rw [preferred?, if_pos huse, HotPathCache.lastChangedCategory?_recordChange, if_pos rfl]
        have hagain := firstChanged_again hreach huse hfirst
        rw [← hpreferred] at hagain
        rw [if_pos huse, evaluate_of_firstChanged hagain, if_pos huse,
          HotPathCache.recordChange_recordChange]
      · rw [if_neg huse, evaluate_of_firstChanged hfirst, if_neg huse]

/-- Two directories of one category. In the first one a link stands where the second one has the
directory that holds the change, and a newer directory lies behind the link. -/
def linkBeforeChange : MemoryTree :=
  ((((((MemoryTree.empty ⟨0⟩).addDirectory (.ofString "/a") ⟨0⟩).addSymlink (.ofString "/a/s")
    ⟨0⟩).addDirectory (.ofString "/a/s/d") ⟨9⟩).addDirectory (.ofString "/b/s") ⟨0⟩).addDirectory
      (.ofString "/b/s/d") ⟨0⟩).addFile (.ofString "/b/s/d/x") [1] ⟨9⟩

def mediaTwice : PackageDirs := ⟨"p", [(.media, .ofString "/a"), (.media, .ofString "/b")]⟩

/-- The second evaluation ends at the first directory, where its hint leads behind the link. -/
theorem evaluate_linkBeforeChange_again :
    linkBeforeChange.Reachable ∧
      scan linkBeforeChange.view ⟨.ofString "/b", ⟨5⟩, 10, none⟩ =
        .changed (.ofString "s/d") ⟨9⟩ ∧
      scan linkBeforeChange.view ⟨.ofString "/a", ⟨5⟩, 10, some (.ofString "s/d")⟩ =
        .changed (.ofString "s/d") ⟨9⟩ ∧
      evaluate linkBeforeChange.view .default mediaTwice (some ⟨5⟩)
          (evaluate linkBeforeChange.view .default mediaTwice (some ⟨5⟩) newMediaCache).2 =
        evaluate linkBeforeChange.view .default mediaTwice (some ⟨5⟩) newMediaCache := by
  have hreach : linkBeforeChange.Reachable :=
    ((((((MemoryTree.Reachable.empty ⟨0⟩).step (.addDirectory _ _)).step (.addSymlink _ _)).step
      (.addDirectory _ _)).step (.addDirectory _ _)).step (.addDirectory _ _)).step (.addFile _ _ _)
  refine ⟨hreach, ?_, ?_, evaluate_again linkBeforeChange .default mediaTwice (some ⟨5⟩)
    newMediaCache hreach⟩
  · have hroot : linkBeforeChange.view.metadataFollow (.ofString "/b") =
        .ok ⟨.directory, 0, some ⟨0⟩⟩ := rfl
    rw [scan, Scan.withStats_of_no_hint hroot rfl rfl]
    decide
  · have hroot : linkBeforeChange.view.metadataFollow (.ofString "/a") =
        .ok ⟨.directory, 0, some ⟨0⟩⟩ := rfl
    have hhot : Scan.hotPath linkBeforeChange.view
        ⟨.ofString "/a", ⟨5⟩, 10, some (.ofString "s/d")⟩ .zero =
          (some (.changed (.ofString "s/d") ⟨9⟩), ⟨1, 0, 0, none⟩) := by decide
    exact congrArg Prod.fst (Scan.withStats_of_hotPath hhot hroot rfl).1

end Evaluation

end IncrementalBackup
