import IncrementalBackup.Proofs.Dedup.Fill
import IncrementalBackup.Proofs.Path.Names

/-!
# Directories that match

A directory matches a set of files if it shows a file for the name of each. A path without a name is
shown as something that no file is, so a directory matches exactly when no name is missing in it.
-/

namespace IncrementalBackup

namespace Dedup

open MemoryTree

variable {t : MemoryTree} {dir : Path} {paths : List Path}

theorem verifyMatch_iff :
    verifyMatch t.view dir paths = true ↔ t.view.isDirectory dir = true ∧
      ∀ p ∈ paths, ∃ name, p.fileName? = some name ∧ ∃ other,
        t.HasFile (dir.components ++ [.name other]) ∧ Utf8.lossy other = Utf8.lossy name := by
  by_cases hdir : t.view.isDirectory dir = true
  · obtain ⟨n, hallowed, hn, hkind⟩ := isDirectory_view_iff.mp hdir
    have hlist := readDir_of_isDirectory hallowed hn hkind
    have hview : t.view.readDir dir = t.readDir dir := rfl
    have hresolves : t.view.resolvesToDirectory dir = true := hdir
    simp only [verifyMatch, hresolves, hview, hlist, hdir, Bool.not_true, Bool.false_eq_true,
      if_false, true_and, List.all_eq_true]
    apply forall_congr'
    intro p
    apply forall_congr'
    rintro -
    cases p.fileName? with
    | none => simp
    | some name => simp [mem_fileNames_iff hlist]
  · have hresolves : t.view.resolvesToDirectory dir = false := Bool.eq_false_iff.mpr hdir
    simp [verifyMatch, hresolves, hdir]

/-- A directory matches what it matched as long as it and the files in it are the same. -/
theorem verifyMatch_congr {t' : MemoryTree} {dir' : Path} (hdir : dir'.components = dir.components)
    (hallowed : t'.IsAllowed dir.components ↔ t.IsAllowed dir.components)
    (hnodes : ∀ l, dir.components <+: l → t'.node? l = t.node? l) :
    verifyMatch t'.view dir' paths = true ↔ verifyMatch t.view dir paths = true := by
  have hdirectory : t'.view.isDirectory dir' = true ↔ t.view.isDirectory dir = true := by
    rw [isDirectory_view_iff, isDirectory_view_iff, hdir, hallowed, hnodes _ List.prefix_rfl]
  have hfiles : ∀ name, t'.HasFile (dir'.components ++ [.name name]) ↔
      t.HasFile (dir.components ++ [.name name]) := by
    intro name
    rw [hdir, MemoryTree.HasFile, MemoryTree.HasFile, hnodes _ (List.prefix_append _ _)]
  rw [verifyMatch_iff, verifyMatch_iff]
  simp only [hdirectory, hfiles]

/-- What is shown of a name is shown of no path without one. -/
theorem exists_fileName?_of_shownName {p : Path} {name : List UInt8} (hname : Path.IsPlain name)
    (h : shownName p = Utf8.lossy name) : ∃ own, p.fileName? = some own := by
  cases hp : p.fileName? with
  | some own => exact ⟨own, rfl⟩
  | none =>
    have hdisplay : p.display = Utf8.lossy name := by
      rw [shownName, hp] at h
      exact h
    exact ⟨p.bytes, hp.symm.trans (Path.fileName?_of_display hname hdisplay)⟩

theorem exists_fileName?_of_missingNames (hwf : t.WellFormed)
    (hdir : t.view.isDirectory dir = true) (h : missingNames t.view dir paths = []) {p : Path}
    (hp : p ∈ paths) : ∃ name, p.fileName? = some name := by
  obtain ⟨other, ⟨n, hn, -⟩, hshown⟩ := (missingNames_eq_nil_iff hdir).mp h p hp
  have hplain : Path.IsPlain other := (hwf.place hn).names other (by simp)
  exact exists_fileName?_of_shownName hplain hshown.symm

theorem verifyMatch_of_missingNames (hwf : t.WellFormed) (hdir : t.view.isDirectory dir = true)
    (h : missingNames t.view dir paths = []) : verifyMatch t.view dir paths = true := by
  refine verifyMatch_iff.mpr ⟨hdir, fun p hp => ?_⟩
  obtain ⟨name, hname⟩ := exists_fileName?_of_missingNames hwf hdir h hp
  obtain ⟨other, hfile, hshown⟩ := (missingNames_eq_nil_iff hdir).mp h p hp
  exact ⟨name, hname, other, hfile, hshown.trans (shownName_of_fileName? hname)⟩

theorem missingNames_of_verifyMatch (h : verifyMatch t.view dir paths = true) :
    missingNames t.view dir paths = [] := by
  obtain ⟨hdir, hpaths⟩ := verifyMatch_iff.mp h
  refine (missingNames_eq_nil_iff hdir).mpr fun p hp => ?_
  obtain ⟨name, hname, other, hfile, hshown⟩ := hpaths p hp
  exact ⟨other, hfile, hshown.trans (shownName_of_fileName? hname).symm⟩

/-- Where no directory can be listed, every name is missing. -/
theorem missingNames_of_not_isDirectory (hdir : ¬ t.view.isDirectory dir = true) :
    missingNames t.view dir paths = paths.map shownName := by
  have hview : t.view.readDir dir = t.readDir dir := rfl
  rw [missingNames, hview]
  cases hlist : t.readDir dir with
  | error e => exact List.filter_eq_self.mpr fun _ _ => rfl
  | ok entries => exact absurd (isDirectory_view_iff.mpr (readDir_eq_ok hlist)) hdir

/-- A directory matches one or more paths exactly when none of their names is missing in it. That goes
for paths without a name and for directories that are not there as well. -/
theorem verifyMatch_iff_missingNames (h : t.Reachable) (dir : Path) (hpaths : paths ≠ []) :
    verifyMatch t.view dir paths = true ↔ missingNames t.view dir paths = [] := by
  constructor
  · exact missingNames_of_verifyMatch
  · intro hmissing
    have hdir : t.view.isDirectory dir = true := by
      by_contra hdir
      rw [missingNames_of_not_isDirectory hdir] at hmissing
      exact hpaths (List.map_eq_nil_iff.mp hmissing)
    exact verifyMatch_of_missingNames h.wellFormed hdir hmissing

/-- A directory with a file whose name is no text, and one at a path that ends in no name. -/
def oddlyNamed : MemoryTree :=
  (((MemoryTree.empty ⟨5⟩).addFile ⟨[0x2F, 0x6B, 0x2F, 0xFF]⟩ [1] ⟨1⟩).addFile (.ofString "/k/a") [2]
    ⟨1⟩).addFile (.ofString "/k/..") [3] ⟨1⟩

theorem reachable_oddlyNamed : oddlyNamed.Reachable :=
  (((MemoryTree.Reachable.empty ⟨5⟩).step (.addFile _ _ _)).step (.addFile _ _ _)).step
    (.addFile _ _ _)

theorem verifyMatch_iff_missingNames_oddlyNamed :
    oddlyNamed.Reachable ∧
      verifyMatch oddlyNamed.view (.ofString "/k/") [.ofString "a", ⟨[0x78, 0x2F, 0xFE]⟩] = true ∧
      missingNames oddlyNamed.view (.ofString "/k/")
        [.ofString "a", ⟨[0x78, 0x2F, 0xFE]⟩] = [] ∧
      missingNames oddlyNamed.view (.ofString "/k") [.ofString "..", .ofString "a"] = [".."] ∧
      ¬ verifyMatch oddlyNamed.view (.ofString "/k") [.ofString "..", .ofString "a"] = true := by
  have hmatch : verifyMatch oddlyNamed.view (.ofString "/k/")
      [.ofString "a", ⟨[0x78, 0x2F, 0xFE]⟩] = true := by decide
  have hmissing : missingNames oddlyNamed.view (.ofString "/k") [.ofString "..", .ofString "a"] =
      [".."] := by decide
  refine ⟨reachable_oddlyNamed, hmatch,
    (verifyMatch_iff_missingNames reachable_oddlyNamed _ (by decide)).mp hmatch, hmissing,
    fun h => ?_⟩
  rw [verifyMatch_iff_missingNames reachable_oddlyNamed _ (by decide), hmissing] at h
  cases h

end Dedup

end IncrementalBackup
