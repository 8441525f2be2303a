import IncrementalBackup.Proofs.Dedup.Contributions
import IncrementalBackup.Proofs.Dedup.Effect

/-!
# Storing again

A call that stores its files takes nothing away from them: what it removes and makes are directories,
and these contribute nothing to a key. So the key of the files is the same after the call, and the
directory of the key matches them: the same call again finds everything stored.
-/

namespace IncrementalBackup

namespace DedupStore

open MemoryTree Dedup

variable {s : DedupStore} {package : String} {set : ApkSet} {t : MemoryTree} {dir p : Path}
  {paths : List Path}

/-- Making the directory anew and filling it leaves every file and every link where it was, and adds
none, as far as the paths that can be copied lead. -/
theorem node?_filled_of_isCopyable (hrenews : CanRenew t dir) (hcopy : IsCopyable t dir p)
    {n : MemoryNode} (hkind : n.kind ≠ .directory) :
    (filled t dir paths).node? p.components = some n ↔ t.node? p.components = some n := by
  have hkeeps := keepsOutside_filled t dir paths
  by_cases hbelow : dir.components <+: p.components
  · -- The path is the directory itself, before and after the call.
    have hself := hcopy.eq_of_prefix hbelow
    have hmade : (filled t dir paths).node? p.components = some ⟨.directory, t.now, []⟩ := by
      rw [hself, node?_filled_of_ne (by simp), node?_renewed_self]
    constructor
    · intro hn
      obtain rfl := Option.some.inj (hmade.symm.trans hn)
      exact absurd rfl hkind
    · intro hn
      exact absurd (hrenews.directory n (hself ▸ hn)) hkind
  · refine ⟨fun hn => ?_, hkeeps.kept _ n hbelow⟩
    cases hbefore : t.node? p.components with
    | some m => exact (hkeeps.kept _ m hbelow hbefore).symm.trans hn
    | none => exact absurd (hkeeps.added _ n hbelow hbefore hn).2 hkind

theorem fileData?_filled (hrenews : CanRenew t dir) (hcopy : IsCopyable t dir p) :
    (filled t dir paths).fileData? p = t.fileData? p := by
  apply Option.ext
  intro data
  simp only [fileData?_eq_some_iff, node_eq_ok_iff, isAllowed_filled]
  refine exists_congr fun n => ?_
  constructor
  · rintro ⟨⟨hallowed, hn⟩, hkind, hdata⟩
    exact ⟨⟨hallowed, (node?_filled_of_isCopyable hrenews hcopy hkind).mp hn⟩, hkind, hdata⟩
  · rintro ⟨⟨hallowed, hn⟩, hkind, hdata⟩
    exact ⟨⟨hallowed, (node?_filled_of_isCopyable hrenews hcopy hkind).mpr hn⟩, hkind, hdata⟩

/-- A directory that is filled with the files of its key keeps this key. -/
theorem computeKey_filled (hrenews : CanRenew t dir)
    (hcopy : ∀ p ∈ set.filePaths, IsCopyable t dir p) (config : DedupConfig) :
    computeKey (filled t dir paths).view set config = computeKey t.view set config :=
  computeKey_eq_of_contributions
    (List.filterMap_congr fun p hp => fileData?_filled hrenews (hcopy p hp))

theorem storeApks_of_verifyMatch (hpaths : set.filePaths ≠ [])
    (hnodup : (set.filePaths.filterMap Path.fileName?).Nodup)
    (hdir : s.dedupDir package (computeKey t.view set s.config) = .ok dir)
    (hmatch : verifyMatch t.view dir set.filePaths = true) :
    s.storeApks package set t = (.ok ⟨computeKey t.view set s.config, dir, true, 0⟩, t) := by
  obtain ⟨packageDir, hpackage, rfl⟩ := dedupDir_eq_ok_iff.mp hdir
  rw [storeApks, if_neg hpaths, duplicateName?_eq_none_iff.mpr hnodup]
  dsimp only
  rw [hpackage]
  exact if_pos hmatch

/-- A call that has stored its files, done again, answers with the same key and the same directory,
copies nothing and changes nothing. -/
theorem storeApks_again (s : DedupStore) (package : String) (set : ApkSet) (t after : MemoryTree)
    (stored : StoredApks) (hreach : t.Reachable) (htext : HasTextNames set.filePaths)
    (hstored : s.storeApks package set t = (.ok stored, after)) :
    s.storeApks package set after = (.ok ⟨stored.key, stored.dir, true, 0⟩, after) := by
  have hmatch := verifyMatch_storeApks hreach hstored
  have houtcome := outcome_storeApks s package set hreach.wellFormed
  rw [hstored] at houtcome
  cases houtcome with
  | reused dir hdir _ => exact hstored
  | copied dir hmakes hnames =>
    have hcopy := hmakes.isCopyable htext hnames
    have hkey : computeKey (filled t dir set.filePaths).view set s.config =
        computeKey t.view set s.config := computeKey_filled hmakes.renews hcopy s.config
    have hplace := hmakes.place
    rw [← hkey] at hplace ⊢
    exact storeApks_of_verifyMatch hmakes.paths hmakes.names hplace hmatch

def oneFile : MemoryTree := (MemoryTree.empty ⟨5⟩).addFile (.ofString "/a") [1, 2, 3] ⟨1⟩

/-- The file with the root of the store and the directory of the key, of which there is none yet. -/
def aroundStore : ApkSet :=
  ⟨none, 1, [.ofString "/s", .ofString "/a", .ofString "/s/p/1_1_3"]⟩

theorem reachable_oneFile : oneFile.Reachable :=
  (MemoryTree.Reachable.empty ⟨5⟩).step (.addFile _ _ _)

/-- The first call makes the directories that it then copies, but they do not count for the key. -/
theorem storeApks_aroundStore_again :
    oneFile.Reachable ∧ HasTextNames aroundStore.filePaths ∧
      (keyedBySize.storeApks "p" aroundStore oneFile).1 =
        .ok ⟨⟨"1_1_3"⟩, .ofString "/s/p/1_1_3", false, 3⟩ ∧
      (keyedBySize.storeApks "p" aroundStore oneFile).2.node?
        (Path.ofString "/s/p/1_1_3/1_1_3").components = some ⟨.file, ⟨5⟩, []⟩ ∧
      keyedBySize.storeApks "p" aroundStore (keyedBySize.storeApks "p" aroundStore oneFile).2 =
        (.ok ⟨⟨"1_1_3"⟩, .ofString "/s/p/1_1_3", true, 0⟩,
          (keyedBySize.storeApks "p" aroundStore oneFile).2) := by
  have htext : HasTextNames aroundStore.filePaths := by decide
  have hstored : (keyedBySize.storeApks "p" aroundStore oneFile).1 =
      .ok ⟨⟨"1_1_3"⟩, .ofString "/s/p/1_1_3", false, 3⟩ := by decide
  exact ⟨reachable_oneFile, htext, hstored, by decide,
    storeApks_again keyedBySize "p" aroundStore oneFile _ _ reachable_oneFile htext
      (Prod.ext hstored rfl)⟩

end DedupStore

end IncrementalBackup
