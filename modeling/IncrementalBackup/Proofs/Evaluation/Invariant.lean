import IncrementalBackup.Proofs.Evaluation.Calls
import IncrementalBackup.Proofs.HotPaths.Stored
import IncrementalBackup.Proofs.Scan.FoundPath

/-!
# What caches hold

A cache that has been empty at first holds only paths that scans have reported. They are text and
stay below the roots of the scans, so they can be used as hints and can be stored. The last changed
category of a package always has a path.
-/

namespace IncrementalBackup

namespace HotPathCache

/-- What holds of a cache if no scan has gone deeper than `depth`. -/
structure IsKept (depth : Nat) (c : HotPathCache) : Prop where
  allPaths : c.AllPaths fun path => path.IsText ∧ path.IsDownTo depth
  isSome : ∀ package category, c.lastChangedCategory? package = some category →
    (c.get? package category).isSome = true

variable {c : HotPathCache} {depth : Nat}

theorem isKept_empty (depth : Nat) : IsKept depth ∅ := ⟨allPaths_empty _, nofun⟩

theorem IsKept.mono {depth' : Nat} (h : c.IsKept depth) (hle : depth ≤ depth') : c.IsKept depth' where
  allPaths := h.allPaths.imp fun _ hpath => ⟨hpath.1, hpath.2.mono hle⟩
  isSome := h.isSome

theorem IsKept.recordChange (h : c.IsKept depth) {path : Path}
    (hpath : path.IsText ∧ path.IsDownTo depth) (owner : String) (category : DataCategory) :
    (c.recordChange owner category path).IsKept depth where
  allPaths := h.allPaths.recordChange hpath owner category
  isSome package category' hlast := by
    rw [lastChangedCategory?_recordChange] at hlast
    rw [get?_recordChange]
    split at hlast
    · rename_i heq
      rw [if_pos ⟨heq, (Option.some.inj hlast).symm⟩]
      rfl
    · rename_i hne
      rw [if_neg fun heq => hne heq.1]
      exact h.isSome package category' hlast

theorem IsKept.forget (h : c.IsKept depth) (owner : String) : (c.forget owner).IsKept depth where
  allPaths := h.allPaths.forget owner
  isSome package category hlast := by
    rw [lastChangedCategory?_forget] at hlast
    rw [get?_forget]
    split at hlast
    · cases hlast
    · rename_i hne
      rw [if_neg hne]
      exact h.isSome package category hlast

end HotPathCache

namespace Evaluation

open HotPathCache

variable {cache : HotPathCache} {depth : Nat}

/-- On any view a call adds only paths that are text. -/
theorem isText_run (h : cache.AllPaths Path.IsText) (view : View) (call : Call) :
    (call.run view cache).2.AllPaths Path.IsText := by
  rcases run_snd_cases view call cache with hsame | ⟨_, _, _, _, -, hhint, hscan, hchanged⟩
  · rwa [hsame]
  · have htext := Scan.isText_foundPath hscan fun hint hgiven => h _ _ _ (hhint hint hgiven)
    rw [hchanged]
    exact h.recordChange htext _ _

theorem isKept_run {t : MemoryTree} (hreach : t.Reachable) (h : cache.IsKept depth) (call : Call) :
    (call.run t.view cache).2.IsKept (max depth call.options.maxDepth.toNat) := by
  rcases run_snd_cases t.view call cache with hsame | ⟨_, _, _, _, hmax, hhint, hscan, hchanged⟩
  · rw [hsame]
    exact h.mono (Nat.le_max_left _ _)
  · have htext := Scan.isText_foundPath hscan fun hint hgiven =>
      (h.allPaths _ _ _ (hhint hint hgiven)).1
    have hdown := Scan.isDownTo_foundPath hreach hscan fun hint hgiven =>
      (h.allPaths _ _ _ (hhint hint hgiven)).2
    rw [hmax] at hdown
    rw [hchanged]
    exact (h.mono (Nat.le_max_left _ _)).recordChange ⟨htext, hdown⟩ _ _

/-- The caches that come about in a run, with the greatest depth of a scan so far. The tree may be
another one for every call. -/
inductive Arises : Nat → HotPathCache → Prop
  | empty : Arises 0 ∅
  | call {depth : Nat} {cache : HotPathCache} {t : MemoryTree} (h : Arises depth cache)
      (hreach : t.Reachable) (call : Call) :
      Arises (max depth call.options.maxDepth.toNat) (call.run t.view cache).2
  | forget {depth : Nat} {cache : HotPathCache} (h : Arises depth cache) (package : String) :
      Arises depth (cache.forget package)
  | reload {depth : Nat} {cache : HotPathCache} (h : Arises depth cache) :
      Arises depth (.ofSnapshot cache.snapshot)

theorem Arises.isKept (h : Arises depth cache) : cache.IsKept depth := by
  induction h with
  | empty => exact isKept_empty 0
  | call h hreach call ih => exact isKept_run hreach ih call
  | forget h package ih => exact ih.forget package
  | reload h ih => rwa [ofSnapshot_snapshot]

theorem Arises.depth_lt (h : Arises depth cache) : depth < UInt32.size := by
  induction h with
  | empty => decide
  | call h hreach call ih => exact Nat.max_lt.mpr ⟨ih, call.options.maxDepth.toNat_lt⟩
  | forget h package ih => exact ih
  | reload h ih => exact ih

/-- In every run all paths of the cache are text, `.` or names only, and not deeper than the scans have
gone, so that they are usable as hints and can be stored, and the category that changed last has a
path. -/
theorem arises_invariant (depth : Nat) (cache : HotPathCache) (h : Arises depth cache) :
    (∀ package category path, cache.get? package category = some path →
      Utf8.isValid path.bytes = true ∧
      (path = .here ∨ (¬ path.isAbsolute = true ∧ path.components ≠ [] ∧
        ∀ c ∈ path.components, c.isName = true)) ∧
      (path.components.filter Component.isName).length ≤ depth ∧
      path.components.depth? = some (path.components.filter Component.isName).length ∧
      (JsonFormat.toJson? path).isSome = true) ∧
    (JsonFormat.pretty? cache.snapshot).isSome = true ∧
    ∀ package category, cache.lastChangedCategory? package = some category →
      (cache.get? package category).isSome = true := by
  have hkept := h.isKept
  refine ⟨fun package category path hget => ?_, ?_, hkept.isSome⟩
  · obtain ⟨htext, hdown⟩ := hkept.allPaths package category path hget
    obtain ⟨hcount, hle⟩ := hdown.nameCount?
    have hsize := h.depth_lt
    refine ⟨htext, ?_, hle, ?_, ?_⟩
    · rcases hdown with hhere | ⟨names, hne, hnames, hlength⟩
      · exact .inl hhere
      · refine .inr ⟨Path.IsDownTo.not_isAbsolute (.inr ⟨names, hne, hnames, hlength⟩), ?_, ?_⟩
        · rw [hnames]
          exact mt List.map_eq_nil_iff.mp hne
        · rw [hnames, List.forall_mem_map]
          exact fun name _ => rfl
    · rw [Location.depth?, hcount, Option.map_some, Nat.min_eq_left (by omega)]
    · rw [htext.toJson?]
      rfl
  · have htext := hkept.allPaths.imp fun _ hpath => hpath.1
    rw [JsonFormat.pretty?, HotPathSnapshot.toJson?_eq_stored htext.snapshot]
    rfl

def mediaCall : Call := ⟨⟨"p", [(.media, .ofString "/media")]⟩, some ⟨7⟩, .default⟩

theorem lastChangedCategory?_mediaCall :
    (mediaCall.run newMedia.view ∅).2.lastChangedCategory? "p" = some .media := by
  have hchanged : (scan newMedia.view (request .default ∅ "p" ⟨7⟩
      (.media, .ofString "/media"))).hasChanges = true :=
    Scan.hasChanges_scan_iff.mpr ⟨⟨.directory, 0, some .epoch⟩, rfl, rfl, .inr (by decide)⟩
  cases hscan : scan newMedia.view (request .default ∅ "p" ⟨7⟩ (.media, .ofString "/media")) with
  | unchanged =>
    rw [hscan] at hchanged
    cases hchanged
  | changed path time =>
    have hfirst : firstChanged newMedia.view .default ∅ "p" ⟨7⟩ [(.media, .ofString "/media")] =
        some (.media, path) := by
      rw [firstChanged, hscan]
    have hrun : mediaCall.run newMedia.view ∅ =
        (⟨true, false, some .media⟩, HotPathCache.recordChange ∅ "p" .media path) :=
      evaluate_of_firstChanged hfirst
    rw [hrun, lastChangedCategory?_recordChange, if_pos rfl]

/-- A run in which a path is stored, another package is forgotten, and the cache is reloaded. -/
theorem arises_invariant_mediaCall :
    ∃ cache path, Arises 10 cache ∧ cache.get? "p" .media = some path ∧
      Utf8.isValid path.bytes = true ∧
      path.components.depth? = some (path.components.filter Component.isName).length := by
  have hreach : newMedia.Reachable :=
    ((MemoryTree.Reachable.empty ⟨0⟩).step (.addFile _ _ _)).step (.addFile _ _ _)
  have harises : Arises 10
      (.ofSnapshot ((mediaCall.run newMedia.view ∅).2.forget "q").snapshot) :=
    ((Arises.empty.call hreach mediaCall).forget "q").reload
  obtain ⟨hpaths, -, hlast⟩ := arises_invariant 10 _ harises
  have hcategory : (HotPathCache.ofSnapshot
      ((mediaCall.run newMedia.view ∅).2.forget "q").snapshot).lastChangedCategory? "p" =
        some .media := by
    rw [ofSnapshot_snapshot, lastChangedCategory?_forget, if_neg (by decide),
      lastChangedCategory?_mediaCall]
  obtain ⟨path, hpath⟩ := Option.isSome_iff_exists.mp (hlast "p" .media hcategory)
  obtain ⟨hvalid, -, -, hdepth, -⟩ := hpaths "p" .media path hpath
  exact ⟨_, path, harises, hpath, hvalid, hdepth⟩

end Evaluation

end IncrementalBackup
