import IncrementalBackup.Proofs.Dedup.Effect
import IncrementalBackup.Proofs.Dedup.KeyDir

/-!
# Runs of a store

Calls that store files follow each other, and between them anything outside the store may change. A
directory that a call has answered with serves the files of this call until a later one copies into
it. Keys leave names out, so the later call may be one for other names.
-/

namespace IncrementalBackup

namespace DedupStore

open MemoryTree Dedup

/-! ## Places of the store -/

def Owns (s : DedupStore) (l : Location) : Prop :=
  s.root.components <+: l ∧ l ≠ s.root.components

/-- The directories of keys: two names below the root. -/
def IsKeyDir (s : DedupStore) (dir : Path) : Prop :=
  ∃ package key, dir.components = s.root.components ++ [.name package, .name key]

variable {s : DedupStore} {package : String} {set : ApkSet} {stored : StoredApks}
  {t t' : MemoryTree} {dir : Path} {paths : List Path}

theorem isKeyDir_of_dedupDir {view : View} {config : DedupConfig}
    (h : s.dedupDir package (computeKey view set config) = .ok dir) : s.IsKeyDir dir := by
  obtain ⟨name, -, hcomponents⟩ := components_dedupDir h
  exact ⟨name, _, hcomponents⟩

theorem IsKeyDir.owns (h : s.IsKeyDir dir) {l : Location} (hl : dir.components <+: l) :
    s.Owns l := by
  obtain ⟨package, key, hdir⟩ := h
  have hroot : s.root.components <+: dir.components := hdir ▸ List.prefix_append _ _
  refine ⟨hroot.trans hl, ?_⟩
  rintro rfl
  have hlength := hl.length_le
  simp only [hdir, List.length_append, List.length_cons, List.length_nil] at hlength
  omega

/-- Nothing lies in two directories of keys, and none of them lies above another. -/
theorem IsKeyDir.not_below {other : Path} (h : s.IsKeyDir dir) (hother : s.IsKeyDir other)
    (hne : other.components ≠ dir.components) {l : Location} (hl : dir.components <+: l) :
    ¬ other.components <+: l ∧ l ∉ other.components.ancestors := by
  have hlength : other.components.length = dir.components.length := by
    obtain ⟨package, key, hdir⟩ := h
    obtain ⟨otherPackage, otherKey, hotherDir⟩ := hother
    rw [hdir, hotherDir]
    simp
  constructor
  · intro hbelow
    exact hne ((List.prefix_of_prefix_length_le hbelow hl hlength.le).eq_of_length hlength)
  · intro habove
    obtain ⟨-, hle, -⟩ := Location.mem_ancestors_iff.mp habove
    exact hne ((hl.trans hle).eq_of_length hlength.symm).symm

/-! ## One call -/

/-- A call that has stored its files. -/
structure StoreCall where
  package : String
  set : ApkSet
  stored : StoredApks
deriving DecidableEq, Repr

namespace StoreCall

def CopiesInto (c : StoreCall) (dir : Path) : Prop :=
  c.stored.reused = false ∧ c.stored.dir.components = dir.components

/-- Each path is shown under the name of some file of the call. -/
def Covers (c : StoreCall) (paths : List Path) : Prop :=
  ∀ p ∈ paths, ∃ q ∈ c.set.filePaths, shownName q = shownName p

instance (c : StoreCall) (dir : Path) : Decidable (c.CopiesInto dir) :=
  inferInstanceAs (Decidable (_ ∧ _))

instance (c : StoreCall) (paths : List Path) : Decidable (c.Covers paths) :=
  inferInstanceAs (Decidable (∀ p ∈ paths, _))

end StoreCall

theorem isKeyDir_of_storeApks (hreach : t.Reachable)
    (h : s.storeApks package set t = (.ok stored, t')) : s.IsKeyDir stored.dir := by
  have houtcome := outcome_storeApks s package set hreach.wellFormed
  rw [h] at houtcome
  cases houtcome with
  | reused dir hdir hmatch => exact isKeyDir_of_dedupDir hdir
  | copied dir hmakes hnames => exact isKeyDir_of_dedupDir hmakes.place

/-- After a call a directory shows what the call has copied into it, or what it showed before. -/
theorem verifyMatch_after_storeApks (hreach : t.Reachable)
    (h : s.storeApks package set t = (.ok stored, t')) (hdir : s.IsKeyDir dir)
    (hpaths : ∀ p ∈ paths, ∃ name, p.fileName? = some name) :
    verifyMatch t'.view dir paths = true ↔
      if StoreCall.CopiesInto ⟨package, set, stored⟩ dir then
        StoreCall.Covers ⟨package, set, stored⟩ paths
      else verifyMatch t.view dir paths = true := by
  have houtcome := outcome_storeApks s package set hreach.wellFormed
  rw [h] at houtcome
  cases houtcome with
  | reused other hother hmatch => rw [if_neg nofun]
  | copied other hmakes hnames =>
    have hallowed : ∀ l, (filled t other set.filePaths).IsAllowed l ↔ t.IsAllowed l :=
      fun _ => isAllowed_filled
    split
    · rename_i hinto
      have hsame : verifyMatch (filled t other set.filePaths).view dir paths = true ↔
          verifyMatch (filled t other set.filePaths).view other paths = true :=
        verifyMatch_congr hinto.2.symm Iff.rfl fun _ _ => rfl
      rw [hsame, verifyMatch_filled hmakes.renews hmakes.names hnames]
      exact forall₂_congr fun p hp => and_iff_right (hpaths p hp)
    · rename_i hinto
      have hne : other.components ≠ dir.components := fun heq => hinto ⟨rfl, heq⟩
      apply verifyMatch_congr rfl (hallowed _)
      intro l hl
      obtain ⟨hbelow, habove⟩ := hdir.not_below (isKeyDir_of_dedupDir hmakes.place) hne hl
      exact (keepsOutside_filled t other _).node?_eq hbelow habove

/-! ## Runs -/

/-- What may happen between two calls: nothing in the store changes, nor the access to it. -/
structure ChangesOutside (s : DedupStore) (before after : MemoryTree) : Prop where
  reachable : after.Reachable
  nodes : ∀ l, s.Owns l → after.node? l = before.node? l
  allowed : ∀ l, s.Owns l → (after.IsAllowed l ↔ before.IsAllowed l)

theorem ChangesOutside.refl (hreach : t.Reachable) : s.ChangesOutside t t :=
  ⟨hreach, fun _ _ => rfl, fun _ _ => Iff.rfl⟩

theorem ChangesOutside.verifyMatch_iff (h : s.ChangesOutside t t') (hdir : s.IsKeyDir dir) :
    verifyMatch t'.view dir paths = true ↔ verifyMatch t.view dir paths = true :=
  verifyMatch_congr rfl (h.allowed _ (hdir.owns List.prefix_rfl)) fun l hl =>
    h.nodes l (hdir.owns hl)

/-- A run of calls that all store their files. -/
inductive Run (s : DedupStore) : MemoryTree → List StoreCall → MemoryTree → Prop
  | done {t t' : MemoryTree} (h : s.ChangesOutside t t') : Run s t [] t'
  | call {t called after t' : MemoryTree} {package : String} {set : ApkSet} {stored : StoredApks}
      {calls : List StoreCall} (hbefore : s.ChangesOutside t called)
      (hcall : s.storeApks package set called = (.ok stored, after))
      (hrest : Run s after calls t') : Run s t (⟨package, set, stored⟩ :: calls) t'

/-- Two calls, the second right after the first. -/
theorem run_pair (s : DedupStore) (first second : StoreCall) (hreach : t.Reachable)
    (hfirst : (s.storeApks first.package first.set t).1 = .ok first.stored)
    (hsecond : (s.storeApks second.package second.set
      (s.storeApks first.package first.set t).2).1 = .ok second.stored) :
    Run s t [first, second] (s.storeApks second.package second.set
      (s.storeApks first.package first.set t).2).2 := by
  have hafter := reachable_storeApks hreach s first.package first.set
  exact .call (.refl hreach) (Prod.ext hfirst rfl)
    (.call (.refl hafter) (Prod.ext hsecond rfl)
      (.done (.refl (reachable_storeApks hafter s second.package second.set))))

/-- The last call that has copied into a directory. -/
def lastCopy? (dir : Path) (calls : List StoreCall) : Option StoreCall :=
  calls.reverse.find? fun c => c.CopiesInto dir

theorem lastCopy?_cons (dir : Path) (c : StoreCall) (calls : List StoreCall) :
    lastCopy? dir (c :: calls) =
      (lastCopy? dir calls).or (if c.CopiesInto dir then some c else none) := by
  rw [lastCopy?, List.reverse_cons, List.find?_append]
  by_cases hinto : c.CopiesInto dir
  · simp [lastCopy?, hinto]
  · simp [lastCopy?, hinto]

theorem Run.verifyMatch_iff {calls : List StoreCall} (hrun : Run s t calls t') (hdir : s.IsKeyDir dir)
    (hpaths : ∀ p ∈ paths, ∃ name, p.fileName? = some name) :
    verifyMatch t'.view dir paths = true ↔
      (∀ later ∈ lastCopy? dir calls, later.Covers paths) ∧
        (lastCopy? dir calls = none → verifyMatch t.view dir paths = true) := by
  induction hrun with
  | done h => simp [lastCopy?, h.verifyMatch_iff hdir]
  | @call t called after t' package set stored calls hbefore hcall hrest ih =>
    rw [ih, lastCopy?_cons]
    cases hlast : lastCopy? dir calls with
    | some later => simp
    | none =>
      have hstep := verifyMatch_after_storeApks hbefore.reachable hcall hdir hpaths
      rw [hbefore.verifyMatch_iff hdir] at hstep
      by_cases hinto : StoreCall.CopiesInto ⟨package, set, stored⟩ dir
      · simp [hstep, hinto]
      · simp [hstep, hinto]

theorem Run.drop {before calls : List StoreCall} (hrun : Run s t (before ++ calls) t')
    (hreach : t.Reachable) : ∃ reached : MemoryTree, reached.Reachable ∧ Run s reached calls t' := by
  induction before generalizing t with
  | nil => exact ⟨t, hreach, hrun⟩
  | cons c before ih =>
    cases hrun with
    | @call _ called _ _ package set _ _ hbefore hcall hrest =>
      have hafter := reachable_storeApks hbefore.reachable s package set
      rw [hcall] at hafter
      exact ih hrest hafter

/-- At the end of a run a directory still has a file for each path it was stored from, unless the
last call that copied into it was one for other names. -/
theorem stored_still_matches_iff (s : DedupStore) (t t' : MemoryTree)
    (before after : List StoreCall) (call : StoreCall) (hreach : t.Reachable)
    (hrun : Run s t (before ++ call :: after) t') :
    verifyMatch t'.view call.stored.dir call.set.filePaths = true ↔
      ∀ later ∈ lastCopy? call.stored.dir after, later.Covers call.set.filePaths := by
  obtain ⟨reached, -, hcalls⟩ := hrun.drop hreach
  cases hcalls with
  | @call _ called _ _ package set stored _ hbefore hcall hrest =>
    have hmatch := verifyMatch_storeApks hbefore.reachable hcall
    have hpaths : ∀ p ∈ set.filePaths, ∃ name, p.fileName? = some name := fun p hp => by
      obtain ⟨name, hname, -⟩ := (Dedup.verifyMatch_iff.mp hmatch).2 p hp
      exact ⟨name, hname⟩
    rw [hrest.verifyMatch_iff (isKeyDir_of_storeApks hbefore.reachable hcall) hpaths]
    exact and_iff_left fun _ => hmatch

def keyedByContents : DedupStore := ⟨.ofString "/s", .default⟩

def sameContents : MemoryTree :=
  ((MemoryTree.empty ⟨5⟩).addFile (.ofString "/a/x") [97, 98, 99] ⟨1⟩).addFile (.ofString "/b/y")
    [97, 98, 99] ⟨1⟩

theorem reachable_sameContents : sameContents.Reachable :=
  ((MemoryTree.Reachable.empty ⟨5⟩).step (.addFile _ _ _)).step (.addFile _ _ _)

def storesX : StoreCall :=
  ⟨"p", ⟨some "1.0", 1, [.ofString "/a/x"]⟩,
    ⟨⟨"1.0_1_78c93bfdd594ebce"⟩, .ofString "/s/p/1.0_1_78c93bfdd594ebce", false, 3⟩⟩

def storesY : StoreCall :=
  ⟨"p", ⟨some "1.0", 1, [.ofString "/b/y"]⟩,
    ⟨⟨"1.0_1_78c93bfdd594ebce"⟩, .ofString "/s/p/1.0_1_78c93bfdd594ebce", false, 3⟩⟩

/-- A file of the same contents and another name has the same key: it takes the place of the first
one in the directory. -/
theorem stored_does_not_match_after_other_name :
    sameContents.Reachable ∧ ∃ t', Run keyedByContents sameContents [storesX, storesY] t' ∧
      ¬ verifyMatch t'.view storesX.stored.dir storesX.set.filePaths = true := by
  refine ⟨reachable_sameContents, _,
    run_pair keyedByContents storesX storesY reachable_sameContents ?_ ?_, ?_⟩
  · decide +kernel
  · decide +kernel
  · decide +kernel

def withDirectory : MemoryTree :=
  ((MemoryTree.empty ⟨5⟩).addFile (.ofString "/a") [1, 2, 3] ⟨1⟩).addDirectory (.ofString "/d") ⟨1⟩

theorem reachable_withDirectory : withDirectory.Reachable :=
  ((MemoryTree.Reachable.empty ⟨5⟩).step (.addFile _ _ _)).step (.addDirectory _ _)

def storesFile : StoreCall :=
  ⟨"p", ⟨none, 1, [.ofString "/a"]⟩, ⟨⟨"1_1_3"⟩, .ofString "/s/p/1_1_3", false, 3⟩⟩

def storesMore : StoreCall :=
  ⟨"p", ⟨none, 1, [.ofString "/d", .ofString "/a"]⟩, ⟨⟨"1_1_3"⟩, .ofString "/s/p/1_1_3", false, 3⟩⟩

/-- A directory adds nothing to the key. The second call makes the directory of the store anew and
copies the first file again, so that it still matches. -/
theorem stored_still_matches_after_more :
    withDirectory.Reachable ∧ storesMore.Covers storesFile.set.filePaths ∧
      ∃ t', Run keyedBySize withDirectory [storesFile, storesMore] t' ∧
        verifyMatch t'.view storesFile.stored.dir storesFile.set.filePaths = true := by
  have hrun := run_pair keyedBySize storesFile storesMore reachable_withDirectory (by decide)
    (by decide)
  refine ⟨reachable_withDirectory, by decide, _, hrun, ?_⟩
  rw [stored_still_matches_iff keyedBySize withDirectory _ [] [storesMore] storesFile
    reachable_withDirectory hrun]
  decide

end DedupStore

end IncrementalBackup
