import Mathlib.Data.List.Find
import IncrementalBackup.Evaluation.Decision
import IncrementalBackup.Proofs.Scan.HotPath

/-!
# Decisions do not depend on hot paths

The hot path cache decides where a scan begins, not what it finds. So a decision names the first
directory, in the order of preference, that a scan without a hint finds changed, and a package needs
a backup or not whatever the cache holds.
-/

namespace IncrementalBackup.Evaluation

variable {view : View} {options : ScanOptions} {package : String} {since : Instant}
  {cache : HotPathCache}

/-- Whether a scan of a data directory finds a change without any hint. -/
def isChanged (view : View) (options : ScanOptions) (since : Instant)
    (dir : DataCategory × Path) : Bool :=
  (scan view ⟨dir.2, since, options.maxDepth.toNat, none⟩).hasChanges

theorem mem_ordered_iff {preferred : Option DataCategory} {dirs : List (DataCategory × Path)}
    {dir : DataCategory × Path} : dir ∈ ordered preferred dirs ↔ dir ∈ dirs := by
  rw [ordered, List.mem_append, List.mem_filter, List.mem_filter, ← and_or_left]
  apply and_iff_left
  cases h : some dir.1 == preferred <;> simp [bne, h]

theorem firstChanged_map_fst (dirs : List (DataCategory × Path)) :
    (firstChanged view options cache package since dirs).map Prod.fst =
      (dirs.find? fun dir =>
        (scan view (request options cache package since dir)).hasChanges).map Prod.fst := by
  induction dirs with
  | nil => rfl
  | cons dir dirs ih =>
    rw [firstChanged, List.find?_cons]
    cases scan view (request options cache package since dir) with
    | changed path time => rfl
    | unchanged => exact ih

theorem evaluate_fst (dirs : PackageDirs) :
    (evaluate view options dirs (some since) cache).1 =
      ⟨((ordered (preferred? options cache dirs.package) dirs.dirs).find? fun dir =>
          (scan view (request options cache dirs.package since dir)).hasChanges).isSome, false,
        ((ordered (preferred? options cache dirs.package) dirs.dirs).find? fun dir =>
          (scan view (request options cache dirs.package since dir)).hasChanges).map Prod.fst⟩ := by
  rw [← firstChanged_map_fst, ← Option.isSome_map (f := Prod.fst), ← firstChanged_map_fst]
  simp only [evaluate]
  cases firstChanged view options cache dirs.package since
    (ordered (preferred? options cache dirs.package) dirs.dirs) <;> rfl

theorem needsBackup_iff (dirs : PackageDirs) :
    (evaluate view options dirs (some since) cache).1.needsBackup = true ↔
      ∃ dir ∈ dirs.dirs,
        (scan view (request options cache dirs.package since dir)).hasChanges = true := by
  rw [evaluate_fst, List.find?_isSome]
  exact exists_congr fun dir => and_congr_left fun _ => mem_ordered_iff

theorem evaluate_of_firstChanged {dirs : PackageDirs} {category : DataCategory} {path : Path}
    (h : firstChanged view options cache dirs.package since
      (ordered (preferred? options cache dirs.package) dirs.dirs) = some (category, path)) :
    evaluate view options dirs (some since) cache = (⟨true, false, some category⟩,
      if options.useHotPath then cache.recordChange dirs.package category path else cache) := by
  simp only [evaluate, h]

theorem get?_of_hint {dir : DataCategory × Path} {hint : Path}
    (h : (request options cache package since dir).hint = some hint) :
    cache.get? package dir.1 = some hint := by
  unfold request at h
  dsimp only at h
  split at h
  · exact h
  · cases h

theorem hint_mem_cache {dir : DataCategory × Path} {hint : Path}
    (h : (request options cache package since dir).hint = some hint) :
    ∃ key, (key, hint) ∈ cache.paths.entries :=
  ⟨_, OrderedMap.get?_eq_some_iff.mp (get?_of_hint h)⟩

theorem exists_scan_of_firstChanged {category : DataCategory} {path : Path}
    {dirs : List (DataCategory × Path)}
    (h : firstChanged view options cache package since dirs = some (category, path)) :
    ∃ dir ∈ dirs, dir.1 = category ∧
      ∃ time, scan view (request options cache package since dir) = .changed path time := by
  induction dirs with
  | nil => cases h
  | cons dir dirs ih =>
    rw [firstChanged] at h
    cases hscan : scan view (request options cache package since dir) with
    | unchanged =>
      rw [hscan] at h
      obtain ⟨other, hother, hcategory, hfound⟩ := ih h
      exact ⟨other, List.mem_cons_of_mem _ hother, hcategory, hfound⟩
    | changed found time =>
      rw [hscan] at h
      cases h
      exact ⟨dir, List.mem_cons_self, rfl, time, hscan⟩

/-- On an ordinary tree the scans of a package find what they find without hints. -/
theorem hasChanges_scan_request {t : MemoryTree} (hreach : t.Reachable) (hordinary : t.IsOrdinary)
    (hcache : ∀ e ∈ cache.paths.entries, e.2.components.length < UInt32.size)
    {dir : DataCategory × Path} (hdir : dir.2.bytes ≠ []) :
    (scan t.view (request options cache package since dir)).hasChanges =
      isChanged t.view options since dir := by
  refine Scan.hasChanges_scan_eq hreach hordinary hdir ?_
  intro hint hhint
  obtain ⟨key, hmem⟩ := hint_mem_cache hhint
  exact hcache _ hmem

theorem needsBackup_iff_isChanged {t : MemoryTree} (hreach : t.Reachable)
    (hordinary : t.IsOrdinary) {dirs : PackageDirs} (hdirs : ∀ dir ∈ dirs.dirs, dir.2.bytes ≠ [])
    (hcache : ∀ e ∈ cache.paths.entries, e.2.components.length < UInt32.size) :
    (evaluate t.view options dirs (some since) cache).1.needsBackup = true ↔
      ∃ dir ∈ dirs.dirs, isChanged t.view options since dir = true := by
  rw [needsBackup_iff]
  apply exists_congr
  intro dir
  apply and_congr_right
  intro hmem
  rw [hasChanges_scan_request hreach hordinary hcache (hdirs dir hmem)]

/-- On an ordinary tree a decision names the first directory that is changed without a hint, those of
the preferred category first, and whether a backup is needed depends on no hot path. On any view a
directory that is changed without a hint makes a backup needed. -/
theorem evaluate_independent_of_hot_paths :
    (∀ (t : MemoryTree) (options : ScanOptions) (package : PackageDirs) (since : Instant)
        (cache : HotPathCache), t.Reachable → t.IsOrdinary →
      (∀ dir ∈ package.dirs, dir.2.bytes ≠ []) →
      (∀ e ∈ cache.paths.entries, e.2.components.length < UInt32.size) →
      (∀ preferred,
        preferred = (if options.useHotPath then cache.lastChangedCategory? package.package
          else none) →
        (evaluate t.view options package (some since) cache).1.changedCategory =
          ((package.dirs.filter (fun dir => some dir.1 == preferred) ++
              package.dirs.filter (fun dir => some dir.1 != preferred)).find?
            (isChanged t.view options since)).map Prod.fst) ∧
      ((evaluate t.view options package (some since) cache).1.needsBackup = true ↔
        ∃ dir ∈ package.dirs, isChanged t.view options since dir = true) ∧
      ∀ (useHotPath : Bool) (other : HotPathCache),
        (∀ e ∈ other.paths.entries, e.2.components.length < UInt32.size) →
        (evaluate t.view { options with useHotPath } package (some since) other).1.needsBackup =
          (evaluate t.view options package (some since) cache).1.needsBackup) ∧
    ∀ (view : View) (options : ScanOptions) (package : PackageDirs) (since : Instant)
        (cache : HotPathCache),
      (∃ dir ∈ package.dirs, isChanged view options since dir = true) →
      (evaluate view options package (some since) cache).1.needsBackup = true := by
  constructor
  · intro t options package since cache hreach hordinary hdirs hcache
    refine ⟨?_, needsBackup_iff_isChanged hreach hordinary hdirs hcache, ?_⟩
    · rintro preferred rfl
      rw [evaluate_fst]
      change _ = ((ordered (preferred? options cache package.package) package.dirs).find? _).map _
      refine congrArg (Option.map Prod.fst) (List.find?_congr fun dir hdir => ?_)
      exact hasChanges_scan_request hreach hordinary hcache (hdirs dir (mem_ordered_iff.mp hdir))
    · intro useHotPath other hother
      rw [Bool.eq_iff_iff, needsBackup_iff_isChanged hreach hordinary hdirs hother,
        needsBackup_iff_isChanged hreach hordinary hdirs hcache]
      rfl
  · rintro view options package since cache ⟨dir, hdir, hchanged⟩
    exact (needsBackup_iff package).mpr ⟨dir, hdir, Scan.hasChanges_scan_of_no_hint hchanged⟩

/-- A package whose last change was in its third directory, below a stale hot path. -/
def newMedia : MemoryTree :=
  ((MemoryTree.empty ⟨0⟩).addFile (.ofString "/app/x") [1] ⟨5⟩).addFile (.ofString "/media/s/y") [2]
    ⟨9⟩

def newMediaDirs : PackageDirs :=
  ⟨"p", [(.appData, .ofString "/app"), (.externalData, .ofString "/media"),
    (.media, .ofString "/media")]⟩

def newMediaCache : HotPathCache := HotPathCache.empty.recordChange "p" .media (.ofString "./gone")

theorem evaluate_newMedia :
    (evaluate newMedia.view .default newMediaDirs (some ⟨7⟩) newMediaCache).1.changedCategory =
        some .media ∧
      (evaluate newMedia.view { ScanOptions.default with useHotPath := false } newMediaDirs
        (some ⟨7⟩) ∅).1.needsBackup = true := by
  have hreach : newMedia.Reachable :=
    ((MemoryTree.Reachable.empty ⟨0⟩).step (.addFile _ _ _)).step (.addFile _ _ _)
  have hmedia : isChanged newMedia.view .default ⟨7⟩ (.media, .ofString "/media") = true :=
    Scan.hasChanges_scan_iff.mpr ⟨⟨.directory, 0, some .epoch⟩, rfl, rfl, .inr (by decide)⟩
  obtain ⟨hcategory, hneeds, hsame⟩ := evaluate_independent_of_hot_paths.1 newMedia .default
    newMediaDirs ⟨7⟩ newMediaCache hreach (by decide) (by decide) (by decide)
  constructor
  · have horder : newMediaDirs.dirs.filter (fun dir => some dir.1 == some .media) ++
          newMediaDirs.dirs.filter (fun dir => some dir.1 != some .media) =
        (.media, .ofString "/media") :: newMediaDirs.dirs.take 2 := by decide
    rw [hcategory (some .media) (by decide), horder, List.find?_cons, hmedia]
    rfl
  · rw [hsame false ∅ (by decide), hneeds]
    exact ⟨_, by decide, hmedia⟩

end IncrementalBackup.Evaluation
