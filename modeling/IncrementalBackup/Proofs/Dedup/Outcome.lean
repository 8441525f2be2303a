import IncrementalBackup.Proofs.Dedup.Key
import IncrementalBackup.Proofs.Dedup.Filled

/-!
# What a call can come to

A call to store files is rejected, reuses the directory of the key, makes it anew and fills it, or
makes it anew in vain. Everything else about a call is read off these four outcomes.
-/

namespace IncrementalBackup

namespace DedupStore

open MemoryTree Dedup

/-- A call that does not find its files in the directory of the key, and can make it anew. -/
structure MakesAnew (s : DedupStore) (package : String) (set : ApkSet) (t : MemoryTree)
    (dir : Path) : Prop where
  place : s.dedupDir package (computeKey t.view set s.config) = .ok dir
  paths : set.filePaths ≠ []
  names : (set.filePaths.filterMap Path.fileName?).Nodup
  differs : ¬ verifyMatch t.view dir set.filePaths = true
  renews : CanRenew t dir

inductive Outcome (s : DedupStore) (package : String) (set : ApkSet) (t : MemoryTree) :
    Except DedupError StoredApks × MemoryTree → Prop
  | rejected (e : DedupError) (he : ∀ key missing, e ≠ .incomplete key missing) :
      Outcome s package set t (.error e, t)
  | reused (dir : Path) (hdir : s.dedupDir package (computeKey t.view set s.config) = .ok dir)
      (hmatch : verifyMatch t.view dir set.filePaths = true) :
      Outcome s package set t (.ok ⟨computeKey t.view set s.config, dir, true, 0⟩, t)
  | copied (dir : Path) (hmakes : MakesAnew s package set t dir)
      (hnames : missingNames (filled t dir set.filePaths).view dir set.filePaths = []) :
      Outcome s package set t
        (.ok ⟨computeKey t.view set s.config, dir, false,
          (copyAll dir set.filePaths (renewed t dir)).1⟩, filled t dir set.filePaths)
  | incomplete (dir : Path) (hmakes : MakesAnew s package set t dir)
      (hnames : missingNames (filled t dir set.filePaths).view dir set.filePaths ≠ []) :
      Outcome s package set t
        (.error (.incomplete (computeKey t.view set s.config)
          (missingNames (filled t dir set.filePaths).view dir set.filePaths)),
          (filled t dir set.filePaths).without dir.components)

variable {s : DedupStore} {package : String} {set : ApkSet} {t : MemoryTree} {dir : Path}

theorem packageDir_eq_error {e : DedupError} (h : s.packageDir package = .error e) :
    e = .invalidPackage package := by
  unfold packageDir at h
  split at h
  · cases h
  · exact (Except.error.inj h).symm

theorem outcome_fill (hwf : t.WellFormed)
    (hdir : s.dedupDir package (computeKey t.view set s.config) = .ok dir)
    (hpaths : set.filePaths ≠ []) (hnodup : (set.filePaths.filterMap Path.fileName?).Nodup)
    (hdiffers : ¬ verifyMatch t.view dir set.filePaths = true) :
    Outcome s package set t (fill (computeKey t.view set s.config) dir set.filePaths t) := by
  by_cases hrenews : CanRenew t dir
  · have hmakes : MakesAnew s package set t dir := ⟨hdir, hpaths, hnodup, hdiffers, hrenews⟩
    rw [fill_of_canRenew _ _ hwf (components_dedupDir_ne_nil hdir) hrenews]
    cases hnames : missingNames (filled t dir set.filePaths).view dir set.filePaths with
    | nil => exact .copied dir hmakes hnames
    | cons name rest =>
      have hincomplete := Outcome.incomplete dir hmakes (by simp [hnames])
      rwa [hnames] at hincomplete
  · obtain ⟨e, he⟩ := fill_of_not_canRenew (computeKey t.view set s.config) set.filePaths hrenews
    rw [he]
    exact .rejected _ nofun

/-- Every call comes to one of the four outcomes. -/
theorem outcome_storeApks (s : DedupStore) (package : String) (set : ApkSet)
    (hwf : t.WellFormed) : Outcome s package set t (s.storeApks package set t) := by
  unfold storeApks
  split
  · exact .rejected _ nofun
  · rename_i hpaths
    cases hnames : duplicateName? set.filePaths with
    | some name => exact .rejected _ nofun
    | none =>
      cases hpackage : s.packageDir package with
      | error e =>
        obtain rfl := packageDir_eq_error hpackage
        exact .rejected _ nofun
      | ok packageDir =>
        have hdir : s.dedupDir package (computeKey t.view set s.config) =
            .ok (packageDir.join (computeKey t.view set s.config).path) :=
          dedupDir_eq_ok_iff.mpr ⟨packageDir, hpackage, rfl⟩
        dsimp only
        split
        · rename_i hmatch
          exact .reused _ hdir hmatch
        · rename_i hdiffers
          exact outcome_fill hwf hdir hpaths (duplicateName?_eq_none_iff.mp hnames) hdiffers

theorem MakesAnew.storeApks_eq_fill (h : MakesAnew s package set t dir) :
    s.storeApks package set t = fill (computeKey t.view set s.config) dir set.filePaths t := by
  obtain ⟨packageDir, hpackage, rfl⟩ := dedupDir_eq_ok_iff.mp h.place
  rw [storeApks, if_neg h.paths, duplicateName?_eq_none_iff.mpr h.names]
  dsimp only
  rw [hpackage]
  exact if_neg h.differs

/-- A call that finds every name in the directory that it has made anew has stored the files. -/
theorem MakesAnew.storeApks_of_found (hwf : t.WellFormed) (h : MakesAnew s package set t dir)
    (hnames : missingNames (filled t dir set.filePaths).view dir set.filePaths = []) :
    s.storeApks package set t = (.ok ⟨computeKey t.view set s.config, dir, false,
      (copyAll dir set.filePaths (renewed t dir)).1⟩, filled t dir set.filePaths) := by
  rw [h.storeApks_eq_fill, fill_of_canRenew _ _ hwf (components_dedupDir_ne_nil h.place) h.renews,
    hnames]

/-- A call that makes a directory anew in vain removes it again. -/
theorem MakesAnew.storeApks_of_missing (hwf : t.WellFormed) (h : MakesAnew s package set t dir)
    (hnames : missingNames (filled t dir set.filePaths).view dir set.filePaths ≠ []) :
    s.storeApks package set t = (.error (.incomplete (computeKey t.view set s.config)
        (missingNames (filled t dir set.filePaths).view dir set.filePaths)),
      (filled t dir set.filePaths).without dir.components) := by
  rw [h.storeApks_eq_fill, fill_of_canRenew _ _ hwf (components_dedupDir_ne_nil h.place) h.renews]
  split
  · exact absurd ‹_› hnames
  · rfl

/-- Whatever a call comes to, it has only done operations on the tree. -/
theorem reachable_storeApks (h : t.Reachable) (s : DedupStore)
    (package : String) (set : ApkSet) : (s.storeApks package set t).2.Reachable := by
  have houtcome := outcome_storeApks s package set h.wellFormed
  generalize s.storeApks package set t = result at houtcome
  cases houtcome with
  | rejected e he => exact h
  | reused dir hdir hmatch => exact h
  | copied dir hmakes hnames =>
    exact reachable_filled h (components_dedupDir_ne_nil hmakes.place) hmakes.renews _
  | incomplete dir hmakes hnames =>
    have hfilled := reachable_filled h (components_dedupDir_ne_nil hmakes.place) hmakes.renews
      set.filePaths
    have hremoved := hfilled.step (.removeDirAll dir)
    rwa [removeDirAll_of_isDirectory (isDirectory_filled hmakes.renews _)] at hremoved

/-- A call that stores its files leaves a directory that matches them. -/
theorem verifyMatch_storeApks {stored : StoredApks} {after : MemoryTree} (hreach : t.Reachable)
    (h : s.storeApks package set t = (.ok stored, after)) :
    verifyMatch after.view stored.dir set.filePaths = true := by
  have houtcome := outcome_storeApks s package set hreach.wellFormed
  rw [h] at houtcome
  cases houtcome with
  | reused dir hdir hmatch => exact hmatch
  | copied dir hmakes hnames =>
    have hfilled := reachable_filled hreach (components_dedupDir_ne_nil hmakes.place)
      hmakes.renews set.filePaths
    exact verifyMatch_of_missingNames hfilled.wellFormed (isDirectory_filled hmakes.renews _) hnames

end DedupStore

end IncrementalBackup
