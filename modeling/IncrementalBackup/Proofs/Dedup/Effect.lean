import IncrementalBackup.Proofs.Dedup.Outcome
import IncrementalBackup.Proofs.Dedup.Store

/-!
# The whole effect of a call

A call that copies leaves a directory with one file for each path and nothing else in it. A call that
misses a file leaves no directory. Outside the directory there are at most the missing directories
above it more than before.
-/

namespace IncrementalBackup

namespace DedupStore

open MemoryTree Dedup

/-- The directory holds one file for each path, under its name and with the contents that are given
for it, and nothing else. -/
structure HoldsExactly (t : MemoryTree) (dir : Path) (paths : List Path)
    (contents : Path → List UInt8) : Prop where
  directory : ∃ d, t.node? dir.components = some d ∧ d.kind = .directory
  names : (paths.filterMap Path.fileName?).Nodup
  files : ∀ p ∈ paths, ∃ name n, p.fileName? = some name ∧
    t.node? (dir.join ⟨name⟩).components = some n ∧ n.kind = .file ∧ n.data = contents p
  only : ∀ l n, t.node? l = some n → dir.components <+: l → l = dir.components ∨
    ∃ p ∈ paths, ∃ name, p.fileName? = some name ∧ l = (dir.join ⟨name⟩).components

variable {s : DedupStore} {package : String} {set : ApkSet} {t : MemoryTree} {dir p : Path}
  {paths : List Path}

/-- What is read of a path when the directory has been made anew. -/
def contentsAnew (t : MemoryTree) (dir p : Path) : List UInt8 :=
  (((renewed t dir).node? p.components).map (·.data)).getD []

theorem exists_isCopy_of_isCopyable (h : IsCopyable t dir p) :
    ∃ name n, IsCopy (renewed t dir) dir p name n ∧ n.data = contentsAnew t dir p := by
  obtain ⟨name, m, hname, hm, hallowed⟩ := canCopy_renewed_iff.mpr h
  refine ⟨name, _, ⟨hname, hallowed, m, hm, rfl⟩, ?_⟩
  rw [contentsAnew, (node_eq_ok_iff.mp hm).2]
  rfl

/-- A file is read as it was before: one that can be copied does not lie in the directory. -/
theorem contentsAnew_of_file (hrenews : CanRenew t dir) (hcopy : IsCopyable t dir p)
    {n : MemoryNode} (hn : t.node? p.components = some n) (hkind : n.kind = .file) :
    contentsAnew t dir p = n.data := by
  have houtside : ¬ dir.components <+: p.components := by
    intro hbelow
    rw [hrenews.directory n (hcopy.eq_of_prefix hbelow ▸ hn)] at hkind
    cases hkind
  rw [contentsAnew, (isRenewed_renewed t dir).kept _ n houtside hn]
  rfl

theorem holdsExactly_filled (hnodup : (paths.filterMap Path.fileName?).Nodup)
    (hcopy : ∀ p ∈ paths, IsCopyable t dir p) :
    HoldsExactly (filled t dir paths) dir paths (contentsAnew t dir) := by
  have hplace : ∀ (p : Path) (name : List UInt8), p.fileName? = some name →
      (dir.join ⟨name⟩).components = dir.components ++ [.name name] := fun p name hname =>
    Path.components_join_of_isPlain dir (Path.isPlain_of_fileName? hname)
  constructor
  · refine ⟨⟨.directory, t.now, []⟩, ?_, rfl⟩
    rw [node?_filled_of_ne (by simp), node?_renewed_self]
  · exact hnodup
  · intro p hp
    obtain ⟨name, n, hn, hdata⟩ := exists_isCopy_of_isCopyable (hcopy p hp)
    obtain ⟨hname, -, m, -, hfile⟩ := id hn
    refine ⟨name, n, hname, ?_, congrArg MemoryNode.kind hfile, hdata⟩
    rw [hplace p name hname]
    exact (node?_filled_name hnodup).mpr ⟨p, hp, hn⟩
  · intro l n hn hbelow
    by_cases hname : ∃ name, l = dir.components ++ [.name name]
    · obtain ⟨name, rfl⟩ := hname
      obtain ⟨p, hp, hcopied⟩ := (node?_filled_name hnodup).mp hn
      exact .inr ⟨p, hp, name, hcopied.1, (hplace p name hcopied.1).symm⟩
    · left
      by_contra hself
      rw [node?_filled_of_ne (fun name heq => hname ⟨name, heq⟩),
        (isRenewed_renewed t dir).empty l hbelow hself] at hn
      cases hn

theorem MakesAnew.isCopyable (h : MakesAnew s package set t dir) (htext : HasTextNames set.filePaths)
    (hnames : missingNames (filled t dir set.filePaths).view dir set.filePaths = []) :
    ∀ p ∈ set.filePaths, IsCopyable t dir p := fun _ hp =>
  isCopyable_of_missingNames_filled h.renews h.names htext hnames hp

/-- What a call does, by its answer. -/
theorem storeApks_effect (s : DedupStore) (package : String) (set : ApkSet) (t : MemoryTree)
    (hreach : t.Reachable) (htext : HasTextNames set.filePaths) :
    (∀ stored after, s.storeApks package set t = (.ok stored, after) →
      stored.key = computeKey t.view set s.config ∧
      s.dedupDir package stored.key = .ok stored.dir ∧
      verifyMatch after.view stored.dir set.filePaths = true ∧
      (stored.reused = true → stored.bytesCopied = 0 ∧ ∀ l, after.node? l = t.node? l) ∧
      (stored.reused = false → KeepsOutside stored.dir t after ∧
        ∃ contents, HoldsExactly after stored.dir set.filePaths contents ∧
          (∀ p ∈ set.filePaths, ∀ n, t.node? p.components = some n → n.kind = .file →
            contents p = n.data) ∧
          stored.bytesCopied =
            (set.filePaths.map fun p => (contents p).length).foldr (· + ·) 0)) ∧
    (∀ key missing after,
      s.storeApks package set t = (.error (.incomplete key missing), after) →
      key = computeKey t.view set s.config ∧
      ∃ dir, s.dedupDir package key = .ok dir ∧
        (∀ l, dir.components <+: l → after.node? l = none) ∧
        missing = (set.filePaths.filter fun p => ¬ IsCopyable t dir p).map shownName ∧
        KeepsOutside dir t after) ∧
    ∀ e after, s.storeApks package set t = (.error e, after) →
      (∀ key missing, e ≠ .incomplete key missing) → ∀ l, after.node? l = t.node? l := by
  have hwf := hreach.wellFormed
  have houtcome := outcome_storeApks s package set hwf
  refine ⟨?_, ?_, ?_⟩
  · intro stored after heq
    have hmatch := verifyMatch_storeApks hreach heq
    rw [heq] at houtcome
    cases houtcome with
    | reused dir hdir _ => exact ⟨rfl, hdir, hmatch, fun _ => ⟨rfl, fun _ => rfl⟩, nofun⟩
    | copied dir hmakes hnames =>
      have hcopy := hmakes.isCopyable htext hnames
      refine ⟨rfl, hmakes.place, hmatch, nofun, fun _ => ⟨keepsOutside_filled t dir _,
        contentsAnew t dir, holdsExactly_filled hmakes.names hcopy, ?_, ?_⟩⟩
      · intro p hp n hn hkind
        exact contentsAnew_of_file hmakes.renews (hcopy p hp) hn hkind
      · exact copyAll_fst (node?_renewed_self t dir) rfl hmakes.names
          fun p hp => exists_isCopy_of_isCopyable (hcopy p hp)
  · intro key missing after heq
    rw [heq] at houtcome
    cases houtcome with
    | rejected e he => exact absurd rfl (he key missing)
    | incomplete dir hmakes hnames =>
      refine ⟨rfl, dir, hmakes.place, ?_, ?_, (keepsOutside_filled t dir _).without⟩
      · intro l hl
        rw [node?_without, if_pos hl]
      · exact missingNames_filled hmakes.renews hmakes.names htext
  · intro e after heq he
    rw [heq] at houtcome
    cases houtcome with
    | rejected e _ => exact fun _ => rfl
    | incomplete dir _ _ => exact absurd rfl (he _ _)

/-- Two files, and what an interrupted copy has left in the directory of their key. -/
def withLeftovers : MemoryTree :=
  (((MemoryTree.empty ⟨5⟩).addFile (.ofString "/a") [1, 2, 3] ⟨1⟩).addFile (.ofString "/b") [1, 2]
    ⟨1⟩).addFile (.ofString "/s/p/1_2_5/old") [7] ⟨1⟩

def twoFiles : ApkSet := ⟨none, 1, [.ofString "/a", .ofString "/b"]⟩

theorem reachable_withLeftovers : withLeftovers.Reachable :=
  (((MemoryTree.Reachable.empty ⟨5⟩).step (.addFile _ _ _)).step (.addFile _ _ _)).step
    (.addFile _ _ _)

theorem storeApks_replaces_leftovers :
    withLeftovers.Reachable ∧ HasTextNames twoFiles.filePaths ∧
      (keyedBySize.storeApks "p" twoFiles withLeftovers).1 =
        .ok ⟨⟨"1_2_5"⟩, .ofString "/s/p/1_2_5", false, 5⟩ ∧
      ∃ contents, HoldsExactly (keyedBySize.storeApks "p" twoFiles withLeftovers).2
          (.ofString "/s/p/1_2_5") twoFiles.filePaths contents ∧
        contents (.ofString "/a") = [1, 2, 3] ∧ contents (.ofString "/b") = [1, 2] := by
  have htext : HasTextNames twoFiles.filePaths := by decide
  have hok : (keyedBySize.storeApks "p" twoFiles withLeftovers).1 =
      .ok ⟨⟨"1_2_5"⟩, .ofString "/s/p/1_2_5", false, 5⟩ := by decide
  obtain ⟨-, -, -, -, heffect⟩ :=
    (storeApks_effect keyedBySize "p" twoFiles withLeftovers reachable_withLeftovers htext).1 _ _
      (Prod.ext hok rfl)
  obtain ⟨-, contents, hholds, hcontents, -⟩ := heffect rfl
  exact ⟨reachable_withLeftovers, htext, hok, contents, hholds,
    hcontents (.ofString "/a") (by decide) ⟨.file, ⟨1⟩, [1, 2, 3]⟩ (by decide) rfl,
    hcontents (.ofString "/b") (by decide) ⟨.file, ⟨1⟩, [1, 2]⟩ (by decide) rfl⟩

end DedupStore

end IncrementalBackup
