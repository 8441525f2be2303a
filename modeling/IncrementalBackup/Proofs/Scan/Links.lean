import IncrementalBackup.Proofs.Scan.Replay
import IncrementalBackup.Proofs.Scan.Sight

/-!
# Behind links

The full scan lists directories only, so it never gets behind a link below the root. The hot path
looks at the place that the hint leads to and at nothing on the way there. So what is behind a link
counts exactly if the hint leads there.
-/

namespace IncrementalBackup

namespace Location

def IsBelow (above l : Location) : Prop := above <+: l ∧ l ≠ above

instance (above l : Location) : Decidable (IsBelow above l) :=
  inferInstanceAs (Decidable (above <+: l ∧ l ≠ above))

variable {above l m : Location}

theorem IsBelow.length_lt (h : IsBelow above l) : above.length < l.length :=
  Nat.lt_of_le_of_ne h.1.length_le fun hlength => h.2 (h.1.eq_of_length hlength).symm

theorem IsBelow.not_isBelow (h : IsBelow above l) : ¬ IsBelow l above := fun h' =>
  Nat.lt_asymm h.length_lt h'.length_lt

/-- Only what is at a place or below it has something below the place one component further. -/
theorem IsBelow.of_concat {c : Component} (h : IsBelow above (l ++ [c])) :
    l = above ∨ IsBelow above l := by
  have hle := (List.prefix_concat_iff.mp h.1).resolve_left fun heq => h.2 heq.symm
  by_cases heq : l = above
  · exact .inl heq
  · exact .inr ⟨hle, heq⟩

end Location

open Location

namespace MemoryTree

/-- Trees with the same denied places that have the same nodes, but not behind a place. -/
structure DiffersOnlyBelow (t t' : MemoryTree) (above : Location) : Prop where
  node? : ∀ l, ¬ IsBelow above l → t.node? l = t'.node? l
  isAllowed : ∀ l, t.IsAllowed l ↔ t'.IsAllowed l

variable {t t' : MemoryTree} {link : Location} {p : Path}

theorem DiffersOnlyBelow.agreeAt (h : DiffersOnlyBelow t t' link) {l : Location}
    (hl : ¬ IsBelow link l) : t.AgreeAt t' l := ⟨h.node? l hl, h.isAllowed l⟩

/-- A place where access is denied tells nothing, wherever it is. -/
theorem DiffersOnlyBelow.metadata_eq (h : DiffersOnlyBelow t t' link)
    (hp : IsBelow link p.components → ¬ t.IsAllowed p.components) :
    t.metadata p = t'.metadata p := by
  by_cases hbelow : IsBelow link p.components
  · have hdenied : t.denied.contains p.components = true := Decidable.not_not.mp (hp hbelow)
    have hdenied' : t'.denied.contains p.components = true :=
      Decidable.not_not.mp (mt (h.isAllowed p.components).mpr (hp hbelow))
    simp only [metadata, node, checkAccess, hdenied, hdenied', if_true]
  · exact (h.agreeAt hbelow).metadata_eq

/-- What is listed in a place is behind no link, unless the place itself is behind it. The link itself
cannot be listed. -/
theorem DiffersOnlyBelow.readDir_eq (h : DiffersOnlyBelow t t' link) (hlink : ¬ t.HasDirectory link)
    (hp : ¬ IsBelow link p.components) : t.readDir p = t'.readDir p := by
  by_cases heq : p.components = link
  · have hnode := (h.agreeAt hp).node_eq
    rw [readDir, readDir, ← hnode]
    cases hn : t.node p with
    | error e => rfl
    | ok n =>
      have hkind : n.kind ≠ .directory := fun hdir =>
        hlink ⟨n, heq ▸ (node_eq_ok_iff.mp hn).2, hdir⟩
      simp only [hkind, ne_eq, not_false_eq_true, if_true]
  · refine (h.agreeAt hp).readDir_eq fun c => h.agreeAt fun hbelow => ?_
    exact hbelow.of_concat.elim heq hp

theorem differsOnlyBelow_addDirectory (hwf : t.WellFormed) {node : MemoryNode}
    (hlink : t.node? link = some node) (hp : IsBelow link p.components) (modified : Instant) :
    DiffersOnlyBelow t (t.addDirectory p modified) link where
  isAllowed _ := Iff.rfl
  node? l hl := by
    rw [addDirectory, node?_put, if_neg (by rintro rfl; exact hl hp)]
    split
    · rename_i hmem
      obtain ⟨hne, hle, -⟩ := mem_ancestors_iff.mp hmem
      -- A place above `p` that is not behind the link is the link or lies above it.
      have habove : l <+: link := by
        rcases List.prefix_or_prefix_of_prefix hle hp.1 with h | h
        · exact h
        · by_cases heq : l = link
          · exact heq ▸ List.prefix_rfl
          · exact absurd ⟨h, heq⟩ hl
      obtain ⟨m, hm⟩ : ∃ m, t.node? l = some m := by
        by_cases heq : l = link
        · exact ⟨node, heq ▸ hlink⟩
        · exact hwf.above hlink l (mem_ancestors_iff.mpr ⟨hne, habove, heq⟩)
      rw [hm, Option.getD_some]
    · rfl

end MemoryTree

namespace Scan

open MemoryTree

variable {t t' : MemoryTree} {request : ScanRequest} {link : Location}

/-- The hint is followed to a place behind a link. -/
def LeadsBehind (t : MemoryTree) (request : ScanRequest) (link : Location) : Prop :=
  t.IsAllowed request.root.components ∧ ∃ hint depth, usableHint? request = some (hint, depth) ∧
    IsBelow link (hintTarget t.view request hint depth).1.components ∧
    t.IsAllowed (hintTarget t.view request hint depth).1.components

theorem hintTarget_fst (view view' : View) (request : ScanRequest) (hint : Path) (depth : Nat) :
    (hintTarget view request hint depth).1 = (hintTarget view' request hint depth).1 := by
  unfold hintTarget
  split <;> rfl

/-- The full scan goes to places behind no link: it has listed the place above. -/
theorem full_congr_of_differsOnlyBelow (hreach : t.Reachable)
    (hbelow : IsBelow request.root.components link) (hlink : ¬ t.HasDirectory link)
    (hdiffers : DiffersOnlyBelow t t' link) {root : MemoryNode} (hdir : root.kind = .directory)
    (stats : ScanStats) :
    full t.view request (some root.modified) stats =
      full t'.view request (some root.modified) stats := by
  refine full_congr (P := fun n => (∃ names node, StandsFor n names node) ∧
    ¬ IsBelow link (n.address request.root).components) ?_ ?_ ?_ stats
  · exact ⟨⟨[], root, standsFor_ofRoot hdir⟩, hbelow.not_isBelow⟩
  · rintro p ⟨⟨names, node, hstands⟩, hp⟩ n hn
    obtain ⟨name, below, hchild, -, hlisted⟩ := hstands.of_mem_listing hreach hn
    refine ⟨⟨_, below, hchild⟩, ?_⟩
    rw [hchild.components_address, List.map_append, map_shown_shown, List.map_append,
      ← List.append_assoc, ← hstands.components_address]
    intro hn
    rcases hn.of_concat with heq | hp'
    · rw [← hstands.components_address, heq] at hlisted
      exact hlink hlisted
    · exact hp hp'
  · rintro n ⟨-, hn⟩ -
    exact hdiffers.readDir_eq hlink hn

theorem hotPath_congr_of_differsOnlyBelow (hlink : ¬ t.HasDirectory link)
    (hdiffers : DiffersOnlyBelow t t' link) (hroot : t.IsAllowed request.root.components)
    (hhint : ¬ LeadsBehind t request link) (stats : ScanStats) :
    hotPath t.view request stats = hotPath t'.view request stats := by
  have hplace : ∀ hint depth, usableHint? request = some (hint, depth) →
      IsBelow link (hintTarget t.view request hint depth).1.components →
      ¬ t.IsAllowed (hintTarget t.view request hint depth).1.components :=
    fun hint depth husable hbelow hallowed =>
      hhint ⟨hroot, hint, depth, husable, hbelow, hallowed⟩
  refine hotPath_congr (fun hint depth husable => ?_)
    (fun hint depth target found husable htarget _ _ => ?_) stats
  · have hfst := hintTarget_fst t.view t'.view request hint depth
    refine Prod.ext hfst ?_
    rw [hintTarget_snd, hintTarget_snd, ← hfst]
    exact hdiffers.metadata_eq (hplace hint depth husable)
  · apply hdiffers.readDir_eq hlink
    intro hbelow
    have hmeta := hintTarget_snd t request hint depth
    have hdenied := hplace hint depth husable
    rw [htarget] at hmeta hdenied
    obtain ⟨-, hallowed, -⟩ := metadata_eq_ok_iff.mp hmeta.symm
    exact hdenied hbelow hallowed

/-- Unless the hint leads behind a link, what is there has no influence on a scan or its counters. -/
theorem withStats_eq_of_differsOnlyBelow (hreach : t.Reachable)
    (hbelow : IsBelow request.root.components link) (hlink : ¬ t.HasDirectory link)
    (hdiffers : DiffersOnlyBelow t t' link) (hhint : ¬ LeadsBehind t request link) :
    withStats t.view request = withStats t'.view request := by
  have hmeta : t.view.metadataFollow request.root = t'.view.metadataFollow request.root :=
    (hdiffers.agreeAt hbelow.not_isBelow).metadata_eq
  rw [withStats, withStats, ← hmeta]
  cases hfound : t.view.metadataFollow request.root with
  | error e => rfl
  | ok root =>
    obtain ⟨node, hallowed, -, rfl⟩ := metadata_eq_ok_iff.mp hfound
    by_cases hdir : node.kind = .directory
    · dsimp only
      simp only [hotPath_congr_of_differsOnlyBelow hlink hdiffers hallowed hhint,
        full_congr_of_differsOnlyBelow hreach hbelow hlink hdiffers hdir]
    · simp [Metadata.isDirectory, hdir]

/-- Whatever a scan has reported, a change at some later time would be reported otherwise. -/
theorem exists_later_time (threshold : Instant) (result : ScanResult) :
    ∃ time, threshold < time ∧ ∀ path, result ≠ .changed path time := by
  cases result with
  | unchanged => exact ⟨⟨threshold.nanoseconds + 1⟩, Int.lt_succ _, fun _ => nofun⟩
  | changed path time =>
    have hlater : time.nanoseconds < max threshold.nanoseconds time.nanoseconds + 1 := by omega
    refine ⟨⟨max threshold.nanoseconds time.nanoseconds + 1⟩,
      Int.lt_add_one_of_le (Int.le_max_left _ _), fun other heq => ?_⟩
    obtain ⟨-, htime⟩ := ScanResult.changed.inj heq
    exact absurd (congrArg Instant.nanoseconds htime) (Int.ne_of_lt hlater)

/-- The result of a scan is the same whatever is behind a link below its root, except if the hint is
followed to a place behind the link. -/
theorem scan_ignores_behind_link_iff (t : MemoryTree) (request : ScanRequest) (link : Location)
    (root node : MemoryNode) (hreach : t.Reachable)
    (hroot : t.node? request.root.components = some root) (hdir : root.kind = .directory)
    (hbelow : IsBelow request.root.components link) (hlink : t.node? link = some node)
    (hkind : node.kind = .symlink) :
    (∀ t' : MemoryTree, t'.Reachable → DiffersOnlyBelow t t' link →
      scan t'.view request = scan t.view request) ↔ ¬ LeadsBehind t request link := by
  constructor
  · -- A later directory at the place that the hint leads to is reported.
    rintro hsame ⟨hallowedRoot, hint, depth, husable, hplace, hallowed⟩
    obtain ⟨time, hlater, hother⟩ := exists_later_time request.threshold (scan t.view request)
    generalize htarget : (hintTarget t.view request hint depth).1 = target at hplace hallowed
    have hdiffers := differsOnlyBelow_addDirectory hreach.wellFormed hlink hplace time
    have hscan := hsame (t.addDirectory target time) (hreach.step (.addDirectory _ _)) hdiffers
    have hnode : (t.addDirectory target time).node? target.components =
        some ⟨.directory, time, []⟩ := by
      rw [addDirectory, node?_put, if_pos rfl]
    have hmeta : (t.addDirectory target time).metadata target = .ok ⟨.directory, 0, some time⟩ :=
      metadata_eq_ok_iff.mpr ⟨_, hallowed, hnode, rfl⟩
    have hfst := (hintTarget_fst (t.addDirectory target time).view t.view request hint depth).trans
      htarget
    have hfound : hintTarget (t.addDirectory target time).view request hint depth =
        (target, .ok ⟨.directory, 0, some time⟩) := by
      refine Prod.ext hfst ?_
      rw [hintTarget_snd, hfst, hmeta]
    have hhot := hotPath_of_newer_directory husable hfound rfl
      (newer?_eq_some.mpr ⟨rfl, hlater⟩) .zero
    have hrootMeta : (t.addDirectory target time).view.metadataFollow request.root = .ok _ :=
      metadata_eq_ok_iff.mpr
        ⟨root, hallowedRoot, (hdiffers.node? _ hbelow.not_isBelow).symm.trans hroot, rfl⟩
    have hchanged := (withStats_of_hotPath hhot hrootMeta (by simp [Metadata.isDirectory, hdir])).1
    exact hother hint (hscan.symm.trans (congrArg Prod.fst hchanged))
  · intro hhint t' _ hdiffers
    have hnot : ¬ t.HasDirectory link := by
      rintro ⟨n, hn, hdirectory⟩
      obtain rfl := Option.some.inj (hlink.symm.trans hn)
      rw [hkind] at hdirectory
      cases hdirectory
    rw [scan, scan, withStats_eq_of_differsOnlyBelow hreach hbelow hnot hdiffers hhint]

/-- A directory with a link in it. -/
def oneLink : MemoryTree :=
  ((MemoryTree.empty ⟨0⟩).addDirectory (.ofString "/r") ⟨0⟩).addSymlink (.ofString "/r/s") ⟨0⟩

def newBehindLink : MemoryTree := oneLink.addDirectory (.ofString "/r/s/d") ⟨9⟩

theorem reachable_oneLink : oneLink.Reachable :=
  ((MemoryTree.Reachable.empty ⟨0⟩).step (.addDirectory _ _)).step (.addSymlink _ _)

theorem differsOnlyBelow_newBehindLink :
    DiffersOnlyBelow oneLink newBehindLink (Path.ofString "/r/s").components := by
  have hlink : oneLink.node? (Path.ofString "/r/s").components = some ⟨.symlink, ⟨0⟩, []⟩ := by
    decide
  exact differsOnlyBelow_addDirectory reachable_oneLink.wellFormed hlink (by decide) ⟨9⟩

/-- The hint `s/d` is followed through the link `s`. -/
theorem scan_follows_hint_behind_link :
    oneLink.Reachable ∧ newBehindLink.Reachable ∧
      oneLink.node? (Path.ofString "/r").components = some ⟨.directory, ⟨0⟩, []⟩ ∧
      oneLink.node? (Path.ofString "/r/s").components = some ⟨.symlink, ⟨0⟩, []⟩ ∧
      IsBelow (Path.ofString "/r").components (Path.ofString "/r/s").components ∧
      DiffersOnlyBelow oneLink newBehindLink (Path.ofString "/r/s").components ∧
      (scan oneLink.view ⟨.ofString "/r", ⟨5⟩, 3, some (.ofString "s/d")⟩).hasChanges = false ∧
      scan newBehindLink.view ⟨.ofString "/r", ⟨5⟩, 3, some (.ofString "s/d")⟩ =
        .changed (.ofString "s/d") ⟨9⟩ := by
  refine ⟨reachable_oneLink, reachable_oneLink.step (.addDirectory _ _), by decide, by decide,
    by decide, differsOnlyBelow_newBehindLink, ?_, rfl⟩
  rw [← Bool.not_eq_true, hasChanges_scan_iff]
  rintro ⟨root, hroot, -, ⟨result, hresult⟩ | hfound⟩
  · cases hresult
  · obtain rfl : ⟨.directory, 0, some ⟨0⟩⟩ = root := Except.ok.inj hroot
    revert hfound
    decide

theorem scan_ignores_behind_hinted_link :
    IsBelow (Path.ofString "/r").components (Path.ofString "/r/s").components ∧
      oneLink.node? (Path.ofString "/r/s").components = some ⟨.symlink, ⟨0⟩, []⟩ ∧
      ¬ LeadsBehind oneLink ⟨.ofString "/r", ⟨5⟩, 3, some (.ofString "./s")⟩
        (Path.ofString "/r/s").components ∧
      scan newBehindLink.view ⟨.ofString "/r", ⟨5⟩, 3, some (.ofString "./s")⟩ =
        scan oneLink.view ⟨.ofString "/r", ⟨5⟩, 3, some (.ofString "./s")⟩ := by
  have hhint : ¬ LeadsBehind oneLink ⟨.ofString "/r", ⟨5⟩, 3, some (.ofString "./s")⟩
      (Path.ofString "/r/s").components := by
    rintro ⟨-, hint, depth, husable, hplace, -⟩
    obtain ⟨rfl, rfl⟩ : (.ofString "./s" : Path) = hint ∧ 1 = depth :=
      Prod.mk.injEq .. ▸ Option.some.inj husable
    exact absurd hplace (by decide)
  refine ⟨by decide, by decide, hhint, ?_⟩
  exact (scan_ignores_behind_link_iff oneLink ⟨.ofString "/r", ⟨5⟩, 3, some (.ofString "./s")⟩
    (Path.ofString "/r/s").components ⟨.directory, ⟨0⟩, []⟩ ⟨.symlink, ⟨0⟩, []⟩ reachable_oneLink
    (by decide) rfl (by decide) (by decide) rfl).mpr hhint newBehindLink
    (reachable_oneLink.step (.addDirectory _ _)) differsOnlyBelow_newBehindLink

end Scan

end IncrementalBackup
