import IncrementalBackup.Proofs.Scan.LevelOrder
import IncrementalBackup.Storage.MemoryTree

/-!
# What a scan without a hint reports

Without a hint a scan of a directory is a search through the level order. A change is reported above the
first newer node, at the path from the root without its last component. That is the directory that lists
the node if it lists it under a single name; a longer name, or a `.`, is read as a path and leads
elsewhere.
-/

namespace IncrementalBackup

namespace ScanNode

/-- The path from the root, `.` for the root itself. -/
def shown (n : ScanNode) : Path := if n.relative.isEmpty then .here else n.relative

theorem components_reportPath_child {p : ScanNode} {e : Entry} {name : List UInt8}
    (h : (Path.ofString e.name).components = [.name name]) :
    (p.child e).reportPath.components = p.shown.components := by
  have hcomponents : (p.child e).relative.components = p.relative.components ++ [.name name] :=
    Path.components_join_of_eq_name h
  have hparent := Path.components_parent? (p.child e).relative
  rw [hcomponents, Location.parent?, List.getLast?_concat] at hparent
  obtain ⟨above, habove, hsame⟩ := Option.map_eq_some_iff.mp hparent
  rw [List.dropLast_concat] at hsame
  have hempty : above.isEmpty = p.relative.isEmpty := by
    have hiff : above.bytes = [] ↔ p.relative.bytes = [] := by
      rw [← Path.components_eq_nil_iff, hsame, Path.components_eq_nil_iff]
    exact Bool.eq_iff_iff.mpr (by simpa [Path.isEmpty] using hiff)
  rw [reportPath, habove, shown]
  simp only [hempty]
  split
  · rfl
  · exact hsame

end ScanNode

namespace Scan

variable {view : View} {request : ScanRequest}

/-- A node of the first level is listed by none; another one is listed by a node before it. -/
theorem exists_lister_before {root : Path} {n : ScanNode} (depth : Nat)
    (level before after : List ScanNode)
    (h : levelsFrom view root depth level = before ++ n :: after) :
    n ∈ level ∨ ∃ p ∈ before, n ∈ listing view root p := by
  induction depth generalizing level before with
  | zero =>
    have hlevel : level = before ++ n :: after := h
    exact .inl (hlevel ▸ List.mem_append_right before List.mem_cons_self)
  | succ depth ih =>
    have hdeeper : ∀ rest, before = level ++ rest →
        levelsFrom view root depth (level.flatMap (listing view root)) = rest ++ n :: after →
        ∃ p ∈ before, n ∈ listing view root p := by
      rintro rest rfl hrest
      rcases ih _ _ hrest with hnext | ⟨p, hp, hn⟩
      · obtain ⟨p, hp, hn⟩ := List.mem_flatMap.mp hnext
        exact ⟨p, List.mem_append_left rest hp, hn⟩
      · exact ⟨p, List.mem_append_right level hp, hn⟩
    rw [levelsFrom] at h
    -- The node stands either behind the whole level or inside it.
    rcases List.append_eq_append_iff.mp h with ⟨rest, hbefore, hrest⟩ | ⟨rest, hlevel, hrest⟩
    · exact .inr (hdeeper rest hbefore hrest)
    · cases rest with
      | nil =>
        rw [List.append_nil] at hlevel
        exact .inr (hdeeper [] (by rw [hlevel, List.append_nil]) hrest.symm)
      | cons m rest =>
        obtain ⟨rfl, -⟩ := List.cons.inj hrest
        exact .inl (hlevel ▸ List.mem_append_right before List.mem_cons_self)

theorem withStats_of_no_hint {root : Metadata} (hroot : view.metadataFollow request.root = .ok root)
    (hdir : root.isDirectory = true) (hhint : request.hint = none) :
    withStats view request =
      match search view request (levelOrder view request root.modified) .zero with
      | (.unchanged, stats) => (.unchanged, stats)
      | (result, stats) => (result, stats.found .fullScan) := by
  have hhot : hotPath view request .zero = (none, .zero) := by simp [hotPath, usableHint?, hhint]
  rw [← full_eq_search]
  simp only [withStats, hroot, hdir, hhot]
  rfl

theorem hasChanges_scan_levelOrder {root : Metadata}
    (hroot : view.metadataFollow request.root = .ok root) (hdir : root.isDirectory = true)
    (hhint : request.hint = none) :
    (scan view request).hasChanges = true ↔
      ∃ n ∈ levelOrder view request root.modified, n.IsNewer request.threshold := by
  have hfound : (search view request (levelOrder view request root.modified) .zero).1.hasChanges =
      true ↔ _ := hasChanges_search
  rw [← hfound, scan, withStats_of_no_hint hroot hdir hhint]
  rcases search view request _ .zero with ⟨_ | ⟨path, time⟩, stats⟩ <;> rfl

/-- A scan without a hint is a search through the level order: it reports the first newer node, and its
counters count the nodes that it has looked at, listed and failed to list until then. The node is
reported at a node before it that lists it, if it does so under a single name. -/
theorem withStats_search_levelOrder (view : View) (request : ScanRequest) (root : Metadata)
    (hroot : view.metadataFollow request.root = .ok root) (hdir : root.isDirectory = true)
    (hhint : request.hint = none) :
    ((withStats view request).1.hasChanges = true ↔
      ∃ n ∈ levelOrder view request root.modified, n.IsNewer request.threshold) ∧
    (∀ before n after time, levelOrder view request root.modified = before ++ n :: after →
      (∀ b ∈ before, ¬ b.IsNewer request.threshold) →
      n.modified = some time → request.threshold < time →
      withStats view request = (.changed n.reportPath time,
        ⟨before.length + 1, before.countP (isListed view request),
          before.countP (isUnlistable view request), some .fullScan⟩) ∧
      (n = .ofRoot root.modified ∧ n.reportPath = .here ∨
        ∃ p ∈ before, n ∈ listing view request.root p ∧ ∀ e name, n = p.child e →
          (Path.ofString e.name).components = [.name name] →
          n.reportPath.components = p.shown.components)) ∧
    ((∀ n ∈ levelOrder view request root.modified, ¬ n.IsNewer request.threshold) →
      withStats view request = (.unchanged,
        ⟨(levelOrder view request root.modified).length,
          (levelOrder view request root.modified).countP (isListed view request),
          (levelOrder view request root.modified).countP (isUnlistable view request), none⟩)) := by
  have hscan := withStats_of_no_hint hroot hdir hhint
  refine ⟨hasChanges_scan_levelOrder hroot hdir hhint, ?_, ?_⟩
  · intro before n after time horder hbefore hmodified hnewer
    constructor
    · rw [hscan, horder, search_of_first hbefore (newer?_eq_some.mpr ⟨hmodified, hnewer⟩) .zero,
        foldl_pass]
      simp [ScanStats.zero, ScanStats.visited, ScanStats.found]
    · rcases exists_lister_before _ _ _ _ horder with hfirst | ⟨p, hp, hn⟩
      · obtain rfl := List.mem_singleton.mp hfirst
        exact .inl ⟨rfl, rfl⟩
      · refine .inr ⟨p, hp, hn, ?_⟩
        rintro e name rfl hname
        exact ScanNode.components_reportPath_child hname
  · intro hold
    rw [hscan, search_of_old hold, foldl_pass]
    simp [ScanStats.zero]

/-- Entries that are listed in a root, and others that are listed in every directory below it. -/
def listings (top below : List Entry) : View where
  metadata _ := .ok ⟨.directory, 0, some ⟨5⟩⟩
  metadataFollow _ := .ok ⟨.directory, 0, some ⟨5⟩⟩
  readDir p := .ok (if p.same (.ofString "/r") then top else below)
  readPrefix _ _ := .ok []

/-- Two directories of which the names, one of them no text, are shown alike, with a new file each. -/
def shownTwice : MemoryTree :=
  ((MemoryTree.empty ⟨0⟩).addFile ⟨[0x2F, 0x72, 0x2F, 0x80, 0x2F, 0x66]⟩ [1] ⟨9⟩).addFile
    (.ofString "/r/\ufffd/g") [1] ⟨9⟩

def twoDown : ScanRequest := ⟨.ofString "/r", ⟨7⟩, 2, none⟩

/-- A new file is not reported at the directory that lists it: it is at `a` if the root lists it as
`a/b`, at `.` if `a` lists it as `.`, and at the other directory of those that are shown alike. -/
theorem withStats_beside_lister :
    (levelOrder (listings [⟨"a/b", .file, 3, some ⟨9⟩⟩] []) twoDown (some ⟨5⟩) =
        [.ofRoot (some ⟨5⟩), (ScanNode.ofRoot (some ⟨5⟩)).child ⟨"a/b", .file, 3, some ⟨9⟩⟩] ∧
      withStats (listings [⟨"a/b", .file, 3, some ⟨9⟩⟩] []) twoDown =
        (.changed (.ofString "a") ⟨9⟩, ⟨2, 1, 0, some .fullScan⟩)) ∧
    (levelOrder (listings [⟨"a", .directory, 0, some ⟨5⟩⟩] [⟨".", .file, 3, some ⟨9⟩⟩]) twoDown
          (some ⟨5⟩) =
        [.ofRoot (some ⟨5⟩), (ScanNode.ofRoot (some ⟨5⟩)).child ⟨"a", .directory, 0, some ⟨5⟩⟩,
          ((ScanNode.ofRoot (some ⟨5⟩)).child ⟨"a", .directory, 0, some ⟨5⟩⟩).child
            ⟨".", .file, 3, some ⟨9⟩⟩] ∧
      withStats (listings [⟨"a", .directory, 0, some ⟨5⟩⟩] [⟨".", .file, 3, some ⟨9⟩⟩]) twoDown =
        (.changed .here ⟨9⟩, ⟨3, 2, 0, some .fullScan⟩)) ∧
    (shownTwice.view.readDir (.ofString "/r") =
        .ok [⟨"\ufffd", .directory, 0, some ⟨0⟩⟩, ⟨"\ufffd", .directory, 0, some ⟨0⟩⟩] ∧
      shownTwice.view.readDir ⟨[0x2F, 0x72, 0x2F, 0x80]⟩ = .ok [⟨"f", .file, 1, some ⟨9⟩⟩] ∧
      withStats shownTwice.view twoDown =
        (.changed (.ofString "\ufffd") ⟨9⟩, ⟨4, 3, 0, some .fullScan⟩)) ∧
    (Path.ofString "a").same .here = false ∧ (Path.ofString "\ufffd").same ⟨[0x80]⟩ = false := by
  have hroot : ∀ top below, (listings top below).metadataFollow twoDown.root =
      .ok ⟨.directory, 0, some ⟨5⟩⟩ := fun _ _ => rfl
  have htree : shownTwice.view.metadataFollow twoDown.root = .ok ⟨.directory, 0, some ⟨0⟩⟩ := rfl
  refine ⟨⟨rfl, ?_⟩, ⟨rfl, ?_⟩, ⟨rfl, rfl, ?_⟩, by decide, by decide⟩
  · rw [withStats_of_no_hint (hroot _ _) rfl rfl]
    rfl
  · rw [withStats_of_no_hint (hroot _ _) rfl rfl]
    rfl
  · rw [withStats_of_no_hint htree rfl rfl]
    rfl

/-- A root with a directory that cannot be listed and one that lists itself and a new file. -/
def selfListing : View where
  metadata _ := .ok ⟨.directory, 0, some ⟨5⟩⟩
  metadataFollow _ := .ok ⟨.directory, 0, some ⟨5⟩⟩
  readDir p :=
    if p.same (.ofString "/r") then
      .ok [⟨"locked", .directory, 0, none⟩, ⟨"a", .directory, 0, some ⟨5⟩⟩]
    else if p.same (.ofString "/r/locked") then .error (.notFound p)
    else .ok [⟨"a", .directory, 0, some ⟨5⟩⟩, ⟨"x", .file, 3, some ⟨9⟩⟩]
  readPrefix _ _ := .ok []

theorem withStats_selfListing :
    selfListing.metadataFollow (.ofString "/r") = .ok ⟨.directory, 0, some ⟨5⟩⟩ ∧
      withStats selfListing ⟨.ofString "/r", ⟨7⟩, 2, none⟩ =
        (.changed (.ofString "a") ⟨9⟩, ⟨5, 2, 1, some .fullScan⟩) ∧
      ∃ p ∈ (levelOrder selfListing ⟨.ofString "/r", ⟨7⟩, 2, none⟩ (some ⟨5⟩)).take 4,
        (Path.ofString "a").components = p.shown.components := by
  obtain ⟨-, hsearch, -⟩ := withStats_search_levelOrder selfListing ⟨.ofString "/r", ⟨7⟩, 2, none⟩
    ⟨.directory, 0, some ⟨5⟩⟩ rfl rfl rfl
  obtain ⟨hscan, ⟨hroot, -⟩ | ⟨p, hp, hn, hplace⟩⟩ := hsearch _ _ _ ⟨9⟩
    (List.take_append_drop 4 (levelOrder selfListing ⟨.ofString "/r", ⟨7⟩, 2, none⟩ (some ⟨5⟩))).symm
    (by decide) rfl (by decide)
  · exact absurd (congrArg ScanNode.depth hroot) (by decide)
  · refine ⟨rfl, hscan, p, hp, ?_⟩
    obtain ⟨entries, hlist, e, he, hchild⟩ := exists_entry_of_mem_listing hn
    have hname : (Path.ofString e.name).components = [.name (Utf8.encode e.name)] := by
      have hnames : ∀ e ∈ entries, e.name = "locked" ∨ e.name = "a" ∨ e.name = "x" := by
        dsimp only [selfListing] at hlist
        split at hlist
        · cases hlist
          decide
        · split at hlist
          · cases hlist
          · cases hlist
            decide
      rcases hnames e he with hname | hname | hname <;> rw [hname] <;> decide
    exact hplace e _ hchild hname

end Scan

end IncrementalBackup
