import IncrementalBackup.Proofs.Scan.HotPath
import IncrementalBackup.Proofs.Storage.Agreement

/-!
# Failures hide changes and invent none

A view is a part of another one if it answers every question about the tree as the other one does, or
not at all. It lists a part of what the other one lists, level by level, and where its hot path finds
a change, the hot path of the other one finds the same. So what a scan of the part reports as changed
is changed for the whole, whichever way the scan of the whole takes.
-/

namespace IncrementalBackup

/-- The same answer, or none. -/
def IsAnswerOf {α : Type} (answer full : Except AccessError α) : Prop :=
  answer = full ∨ ∃ e, answer = .error e

theorem IsAnswerOf.eq_ok {α : Type} {answer full : Except AccessError α} {a : α}
    (h : IsAnswerOf answer full) (hok : answer = .ok a) : full = .ok a := by
  rcases h with rfl | ⟨e, rfl⟩
  · exact hok
  · cases hok

/-- What a scan asks of the tree is answered as by another view, or not at all. -/
structure View.IsPartOf (part full : View) : Prop where
  metadata : ∀ p, IsAnswerOf (part.metadata p) (full.metadata p)
  metadataFollow : ∀ p, IsAnswerOf (part.metadataFollow p) (full.metadataFollow p)
  readDir : ∀ p, IsAnswerOf (part.readDir p) (full.readDir p)

namespace Scan

variable {part full : View} {request : ScanRequest}

/-! ## The levels of a part -/

theorem listing_subset (h : part.IsPartOf full) (root : Path) (n : ScanNode) :
    listing part root n ⊆ listing full root n := by
  unfold listing
  split
  · cases hlist : part.readDir (n.address root) with
    | error e => exact List.nil_subset _
    | ok entries =>
      rw [(h.readDir _).eq_ok hlist]
      exact List.Subset.refl _
  · exact List.nil_subset _

theorem levelsFrom_subset (h : part.IsPartOf full) (root : Path) (depth : Nat)
    {level level' : List ScanNode} (hlevel : level ⊆ level') :
    levelsFrom part root depth level ⊆ levelsFrom full root depth level' := by
  induction depth generalizing level level' with
  | zero => exact hlevel
  | succ depth ih =>
    have hnext : level.flatMap (listing part root) ⊆ level'.flatMap (listing full root) := by
      intro n hn
      obtain ⟨p, hp, hlisted⟩ := List.mem_flatMap.mp hn
      exact List.mem_flatMap.mpr ⟨p, hlevel hp, listing_subset h root p hlisted⟩
    rw [levelsFrom, levelsFrom]
    exact List.append_subset.mpr ⟨List.subset_append_of_subset_left _ hlevel,
      List.subset_append_of_subset_right _ (ih hnext)⟩

theorem levelOrder_subset (h : part.IsPartOf full) (request : ScanRequest)
    (rootModified : Option Instant) :
    levelOrder part request rootModified ⊆ levelOrder full request rootModified :=
  levelsFrom_subset h _ _ (List.Subset.refl _)

/-! ## The hot path of a part -/

theorem hintTarget_eq_ok (h : part.IsPartOf full) {hint target : Path} {depth : Nat}
    {found : Metadata} (htarget : hintTarget part request hint depth = (target, .ok found)) :
    hintTarget full request hint depth = (target, .ok found) := by
  by_cases hroot : depth = 0
  · rw [hintTarget, if_pos hroot] at htarget ⊢
    obtain ⟨rfl, hfound⟩ := Prod.mk.inj htarget
    rw [(h.metadataFollow _).eq_ok hfound]
  · rw [hintTarget, if_neg hroot] at htarget ⊢
    obtain ⟨rfl, hfound⟩ := Prod.mk.inj htarget
    rw [(h.metadata _).eq_ok hfound]

/-- A hot path that finds a change has been answered every question on the way to it. -/
theorem hotPath_of_isPartOf (h : part.IsPartOf full) {result : ScanResult}
    {stats stats' : ScanStats} (hhot : hotPath part request stats = (some result, stats')) :
    hotPath full request stats = (some result, stats') := by
  rw [hotPath] at hhot ⊢
  cases husable : usableHint? request with
  | none =>
    rw [husable] at hhot
    cases hhot
  | some usable =>
    obtain ⟨hint, depth⟩ := usable
    rw [husable] at hhot
    rcases htarget : hintTarget part request hint depth with ⟨target, e | found⟩
    · simp [htarget] at hhot
    · simp only [htarget] at hhot
      simp only [hintTarget_eq_ok h htarget]
      cases hnewer : newer? request.threshold found.modified with
      | some time =>
        -- The directory is newer itself, so nothing is asked about its entries.
        rw [hnewer] at hhot
        exact hhot
      | none =>
        rw [hnewer] at hhot
        cases hlist : part.readDir target with
        | error e =>
          simp only [hlist] at hhot
          split at hhot
          · cases hhot
          · split at hhot
            · cases hhot
            · cases hhot
        | ok entries =>
          rw [hlist] at hhot
          rw [(h.readDir target).eq_ok hlist]
          exact hhot

/-- A change that is found although some questions fail is found when they are answered. -/
theorem hasChanges_scan_of_isPartOf (part full : View) (request : ScanRequest)
    (hpart : part.IsPartOf full) (hchanged : (scan part request).hasChanges = true) :
    (scan full request).hasChanges = true := by
  obtain ⟨root, hroot, hdir, hfound⟩ := hasChanges_scan_iff.mp hchanged
  refine hasChanges_scan_iff.mpr ⟨root, (hpart.metadataFollow _).eq_ok hroot, hdir, ?_⟩
  rcases hfound with ⟨result, hhot⟩ | ⟨n, hn, hnewer⟩
  · left
    exact ⟨result, congrArg Prod.fst (hotPath_of_isPartOf hpart (Prod.ext hhot rfl))⟩
  · right
    exact ⟨n, levelOrder_subset hpart request root.modified hn, hnewer⟩

end Scan

/-! ## Access that is denied -/

namespace MemoryTree

theorem node_deny (t : MemoryTree) (p q : Path) : IsAnswerOf ((t.deny p).node q) (t.node q) := by
  by_cases hq : q.components = p.components
  · right
    have hdenied : (t.deny p).denied.contains q.components = true := by
      rw [hq, deny, OrderedMap.contains_iff, OrderedMap.get?_insert, if_pos rfl]
      exact ⟨(), rfl⟩
    exact ⟨_, by rw [node, checkAccess, if_pos hdenied]⟩
  · exact .inl (agreeAt_deny hq).node_eq.symm

/-- Denying access to a path takes answers away and changes none. -/
theorem isPartOf_deny (t : MemoryTree) (p : Path) : (t.deny p).view.IsPartOf t.view := by
  have hmetadata : ∀ q, IsAnswerOf ((t.deny p).metadata q) (t.metadata q) := by
    intro q
    rw [metadata, metadata]
    rcases node_deny t p q with hsame | ⟨e, he⟩
    · exact .inl (by rw [hsame])
    · exact .inr ⟨e, by rw [he]; rfl⟩
  refine ⟨hmetadata, hmetadata, fun q => ?_⟩
  change IsAnswerOf ((t.deny p).readDir q) (t.readDir q)
  rw [readDir, readDir]
  rcases node_deny t p q with hsame | ⟨e, he⟩
  · exact .inl (by rw [hsame]; rfl)
  · exact .inr ⟨e, by rw [he]⟩

end MemoryTree

namespace Scan

/-- Two directories below a root, with a new file in each. -/
def twoBranches : MemoryTree :=
  ((((MemoryTree.empty ⟨0⟩).addDirectory (.ofString "/r") ⟨0⟩).addDirectory (.ofString "/r/a")
    ⟨0⟩).addFile (.ofString "/r/a/f") [1] ⟨9⟩).addFile (.ofString "/r/b/g") [2] ⟨8⟩

def hintedAtA : ScanRequest := ⟨.ofString "/r", ⟨5⟩, 3, some (.ofString "a")⟩

/-- With access to the hinted directory denied the full scan finds the other file; without, the hot
path finds the one in it. -/
theorem hasChanges_scan_of_deniedBranch :
    (twoBranches.deny (.ofString "/r/a")).view.IsPartOf twoBranches.view ∧
      (hotPath (twoBranches.deny (.ofString "/r/a")).view hintedAtA .zero).1 = none ∧
      (scan (twoBranches.deny (.ofString "/r/a")).view hintedAtA).hasChanges = true ∧
      (hotPath twoBranches.view hintedAtA .zero).1 = some (.changed (.ofString "a") ⟨9⟩) ∧
      (scan twoBranches.view hintedAtA).hasChanges = true := by
  have hpart := MemoryTree.isPartOf_deny twoBranches (.ofString "/r/a")
  have hchanged : (scan (twoBranches.deny (.ofString "/r/a")).view hintedAtA).hasChanges = true :=
    hasChanges_scan_iff.mpr ⟨⟨.directory, 0, some ⟨0⟩⟩, by decide, by decide, .inr (by decide)⟩
  exact ⟨hpart, by decide, hchanged, by decide,
    hasChanges_scan_of_isPartOf _ _ hintedAtA hpart hchanged⟩

end Scan

end IncrementalBackup
