import IncrementalBackup.Config.File
import IncrementalBackup.Proofs.Evaluation.Invariant
import IncrementalBackup.Proofs.Storage.Writing

/-!
# Keeping the cache in a file

A cache that is saved is the same cache when it is loaded again, so a program that ends and starts
again between calls decides as one that goes on.
-/

namespace IncrementalBackup

/-- Files of which one holds any text that is written to it, as long as they are as `usable` says. -/
def StoresText {φ : Type} [Files φ] (p : Path) (usable : φ → Prop) : Prop :=
  ∀ (fs : φ) (text : String), usable fs → ∃ fs', Files.writeText p text fs = (.ok (), fs') ∧
    usable fs' ∧ Files.contains fs' p = true ∧ Files.readText fs' p = .ok text

theorem storesText_disk (p : Path) :
    StoresText p fun d : Disk => (Disk.openNew p d).isOk = true :=
  fun _ text h => Disk.exists_writeText h text

variable {φ : Type} [Files φ] {p : Path} {usable : φ → Prop}

theorem HotPathCache.load_save (hstores : StoresText p usable) {cache : HotPathCache}
    (hcache : cache.AllPaths Path.IsText) {fs : φ} (hfs : usable fs) :
    ∃ fs', cache.save p fs = (.ok (), fs') ∧ usable fs' ∧ HotPathCache.load p fs' = cache := by
  obtain ⟨text, hpretty, hread⟩ := HotPathSnapshot.exists_pretty? hcache.snapshot
  obtain ⟨fs', hwrite, hfs', hcontains, htext⟩ := hstores fs text hfs
  refine ⟨fs', ?_, hfs', ?_⟩
  · rw [save, hpretty]
    simp only [hwrite]
  · rw [load, hcontains, htext]
    simp only [hread, Bool.not_true, Bool.false_eq_true, if_false, ofSnapshot_snapshot]

namespace Evaluation

open HotPathCache

/-- What a program does with its cache: a call, or it ends with the cache saved, and starts again. -/
inductive Step where
  | call (call : Call)
  | restart

def Step.call? : Step → Option Call
  | .call made => some made
  | .restart => none

/-- Makes the calls and the restarts in turn, with the decisions and the cache that is left. -/
def runSteps (view : View) (p : Path) :
    List Step → HotPathCache → φ → Except SaveError (List BackupDecision × HotPathCache) × φ
  | [], cache, fs => (.ok ([], cache), fs)
  | .call call :: rest, cache, fs =>
    let (decision, cache) := call.run view cache
    let (result, fs) := runSteps view p rest cache fs
    (result.map fun (later, cache) => (decision :: later, cache), fs)
  | .restart :: rest, cache, fs =>
    match cache.save p fs with
    | (.error e, fs) => (.error e, fs)
    | (.ok (), fs) => runSteps view p rest (HotPathCache.load p fs) fs

/-- Restarts change nothing: the calls make the same decisions as in one go, and leave the same cache. -/
theorem runSteps_eq (view : View) (p : Path) (usable : φ → Prop) (hstores : StoresText p usable)
    (steps : List Step) (cache : HotPathCache) (hcache : cache.AllPaths Path.IsText) (fs : φ) (hfs : usable fs) :
    ∃ fs', usable fs' ∧ runSteps view p steps cache fs =
      (.ok (decisions view cache (steps.filterMap Step.call?),
        cacheAfter view cache (steps.filterMap Step.call?)), fs') := by
  induction steps generalizing cache fs with
  | nil => exact ⟨fs, hfs, rfl⟩
  | cons step steps ih =>
    cases step with
    | call call =>
      obtain ⟨fs', hfs', hrest⟩ := ih _ (isText_run hcache view call) fs hfs
      refine ⟨fs', hfs', ?_⟩
      have hcalls : (Step.call call :: steps).filterMap Step.call? =
          call :: steps.filterMap Step.call? := List.filterMap_cons_some rfl
      rw [hcalls]
      simp only [runSteps, hrest]
      rfl
    | restart =>
      obtain ⟨saved, hsave, hsaved, hload⟩ := load_save hstores hcache hfs
      obtain ⟨fs', hfs', hrest⟩ := ih cache hcache saved hsaved
      refine ⟨fs', hfs', ?_⟩
      rw [List.filterMap_cons_none rfl]
      simp only [runSteps, hsave, hload, hrest]

def emptyDisk : Disk := .empty [] ⟨0⟩

/-- A path with a quotation mark, a backslash, a control character and one beyond ASCII. -/
def oddCache : HotPathCache := newMediaCache.recordChange "q \"\\" .obb (.ofString "a\"\\\u0001/\u00e9")

theorem runSteps_emptyDisk :
    ∃ disk, runSteps newMedia.view (.ofString "/hot_paths.json")
        [.restart, .call mediaCall, .restart, .restart, .call (alternating 1), .restart] oddCache
        emptyDisk =
      (.ok (decisions newMedia.view oddCache [mediaCall, alternating 1],
        cacheAfter newMedia.view oddCache [mediaCall, alternating 1]), disk) := by
  have htext : oddCache.AllPaths Path.IsText :=
    ((allPaths_empty _).recordChange (Path.isText_ofString _) _ _).recordChange
      (Path.isText_ofString _) _ _
  have hopen : (Disk.openNew (.ofString "/hot_paths.json") emptyDisk).isOk = true := by cbv
  obtain ⟨disk, -, hrun⟩ := runSteps_eq newMedia.view (.ofString "/hot_paths.json") _
    (storesText_disk (.ofString "/hot_paths.json"))
    [.restart, .call mediaCall, .restart, .restart, .call (alternating 1), .restart] oddCache htext
    emptyDisk hopen
  exact ⟨disk, hrun⟩

end Evaluation

end IncrementalBackup
