import IncrementalBackup.Proofs.Scan.HotPath

/-!
# A reported path leads back to the change

A change is reported at a path from the root. The same scan with this path as its hint finds the same
change in the hot path. If it was the full scan that reported the change, the directory at this path
has been passed before, so it is not newer itself, and the change comes first in its listing.
-/

namespace IncrementalBackup

theorem Location.nameCount?_names (names : List (List UInt8)) :
    nameCount? (names.map .name) = some names.length := by
  induction names with
  | nil => rfl
  | cons name names ih => simp [nameCount?, ih]

namespace Scan

section

variable {view : View} {request : ScanRequest}

/-! ## Where the first newer node was listed -/

/-- The first node that a level order has of some kind stands in the first level, or is listed in a
level without nodes of this kind, as the first one that its directory lists. -/
theorem exists_level_of_find? {root : Path} {P : List ScanNode → Prop} {kind : ScanNode → Bool}
    {n : ScanNode} (depth : Nat) (level : List ScanNode) (hlevel : P level)
    (hnext : ∀ level, P level → P (level.flatMap (listing view root)))
    (hfind : (levelsFrom view root depth level).find? kind = some n) :
    level.find? kind = some n ∨ ∃ above, P above ∧ above.find? kind = none ∧
      ∃ p ∈ above, (listing view root p).find? kind = some n := by
  induction depth generalizing level with
  | zero => exact .inl hfind
  | succ depth ih =>
    rw [levelsFrom, List.find?_append] at hfind
    cases hfirst : level.find? kind with
    | some m =>
      rw [hfirst, Option.some_or] at hfind
      exact .inl hfind
    | none =>
      rw [hfirst, Option.none_or] at hfind
      right
      rcases ih _ (hnext level hlevel) hfind with hhere | hdeeper
      · rw [List.find?_flatMap] at hhere
        obtain ⟨p, hp, hlisted⟩ := List.exists_of_findSome?_eq_some hhere
        exact ⟨level, hlevel, hfirst, p, hp, hlisted⟩
      · exact hdeeper

theorem find?_of_search {nodes : List ScanNode} {stats stats' : ScanStats} {path : Path}
    {time : Instant} (h : search view request nodes stats = (.changed path time, stats')) :
    ∃ n, nodes.find? (fun n => isNewer request.threshold n.modified) = some n ∧
      newer? request.threshold n.modified = some time ∧ path = n.reportPath := by
  induction nodes generalizing stats with
  | nil => cases h
  | cons n nodes ih =>
    rw [search] at h
    cases hnewer : newer? request.threshold n.modified with
    | some other =>
      rw [hnewer] at h
      cases h
      exact ⟨n, by simp [isNewer, hnewer], hnewer, rfl⟩
    | none =>
      rw [hnewer] at h
      obtain ⟨m, hm, hfound⟩ := ih h
      have hskip : isNewer request.threshold n.modified = false := by rw [isNewer, hnewer]; rfl
      exact ⟨m, by simpa [hskip] using hm, hfound⟩

/-- A reported change comes from the hot path or is the first newer node of the level order. -/
theorem scan_eq_changed {path : Path} {time : Instant}
    (h : scan view request = .changed path time) :
    ∃ root, view.metadataFollow request.root = .ok root ∧ root.isDirectory = true ∧
      ((∃ stats, hotPath view request .zero = (some (.changed path time), stats)) ∨
        ∃ n, (levelOrder view request root.modified).find?
            (fun n => isNewer request.threshold n.modified) = some n ∧
          newer? request.threshold n.modified = some time ∧ path = n.reportPath) := by
  rw [scan, withStats] at h
  cases hroot : view.metadataFollow request.root with
  | error e =>
    rw [hroot] at h
    cases h
  | ok root =>
    rw [hroot] at h
    by_cases hdir : root.isDirectory = true
    · refine ⟨root, rfl, hdir, ?_⟩
      simp only [hdir, Bool.not_true, Bool.false_eq_true, if_false] at h
      rcases hhot : hotPath view request .zero with ⟨_ | result, stats⟩
      · rw [hhot] at h
        rcases hfull : full view request root.modified stats with ⟨_ | ⟨other, found⟩, stats'⟩
        · simp [hfull] at h
        · simp only [hfull, ScanResult.changed.injEq] at h
          obtain ⟨rfl, rfl⟩ := h
          rw [full_eq_search] at hfull
          exact .inr (find?_of_search hfull)
      · rw [hhot] at h
        obtain rfl : result = .changed path time := h
        exact .inl ⟨stats, rfl⟩
    · simp [hdir] at h

/-! ## What makes the hot path report a change -/

theorem hotPath_of_newer_directory {hint target : Path} {depth : Nat} {found : Metadata}
    {time : Instant} (husable : usableHint? request = some (hint, depth))
    (htarget : hintTarget view request hint depth = (target, .ok found))
    (hdir : found.isDirectory = true) (hnewer : newer? request.threshold found.modified = some time)
    (stats : ScanStats) :
    hotPath view request stats = (some (.changed hint time), stats.visited) := by
  simp [hotPath, husable, htarget, hdir, hnewer]

theorem hotPath_of_newer_entry {hint target : Path} {depth : Nat} {found : Metadata} {e : Entry}
    {time : Instant} {entries : List Entry} (husable : usableHint? request = some (hint, depth))
    (htarget : hintTarget view request hint depth = (target, .ok found))
    (hdir : found.isDirectory = true) (hold : newer? request.threshold found.modified = none)
    (hdepth : depth < request.maxDepth) (hlist : view.readDir target = .ok entries)
    (hfind : entries.find? (fun e => isNewer request.threshold e.modified) = some e)
    (hnewer : newer? request.threshold e.modified = some time) (stats : ScanStats) :
    ∃ stats', hotPath view request stats = (some (.changed hint time), stats') := by
  have hfirst := firstNewer_fst request.threshold entries stats.visited.listed
  rw [hfind, Option.bind_some, hnewer] at hfirst
  rcases hfound : firstNewer request.threshold entries stats.visited.listed with ⟨other, stats'⟩
  rw [hfound] at hfirst
  obtain rfl : other = some time := hfirst
  exact ⟨stats', by simp [hotPath, husable, htarget, hdir, hold, hdepth.ne, hlist, hfound]⟩

theorem withStats_of_hotPath {root : Metadata} {path : Path} {time : Instant} {stats : ScanStats}
    (hhot : hotPath view request .zero = (some (.changed path time), stats))
    (hroot : view.metadataFollow request.root = .ok root) (hdir : root.isDirectory = true) :
    withStats view request = (.changed path time, stats.found .hotPath) ∧ stats.dirsListed ≤ 1 := by
  obtain ⟨-, -, -, -, -, -, hlisted, -⟩ := hotPath_eq_some hhot
  exact ⟨by simp [withStats, hroot, hdir, hhot], hlisted⟩

end

/-! ## The path of a listed node as a hint -/

variable {t : MemoryTree} {request : ScanRequest} {n : ScanNode} {names : List (List UInt8)}
  {node : MemoryNode}

/-- The path at which a listed node is reported leads to the directory that lists it. -/
theorem StandsFor.hintTarget_reportPath (h : StandsFor n names node) (view : View)
    (request : ScanRequest) {e : Entry} (hname : Path.IsPlain (Utf8.encode e.name)) :
    (n.child e).reportPath.bytes ≠ [] ∧
      ∃ depth, (n.child e).reportPath.components.depth? = some depth ∧ depth ≤ n.depth ∧
        (hintTarget view request (n.child e).reportPath depth).1.components =
          (n.address request.root).components := by
  have hreport := ScanNode.components_reportPath_child (p := n) (Path.components_of_isPlain hname)
  rw [ScanNode.shown] at hreport
  have hbytes := mt (Path.components_eq_nil_iff (p := (n.child e).reportPath)).mpr
  rw [h.components_address]
  cases names with
  | nil =>
    have hempty : n.relative.isEmpty = true :=
      List.isEmpty_iff.mpr (Path.components_eq_nil_iff.mp h.relative)
    rw [if_pos hempty] at hreport
    refine ⟨hbytes (by rw [hreport]; decide), 0, by rw [hreport]; decide, Nat.zero_le _, ?_⟩
    simp [hintTarget]
  | cons name names =>
    have hne : ¬ n.relative.isEmpty = true := by
      intro hempty
      have hnil := Path.components_eq_nil_iff.mpr (List.isEmpty_iff.mp hempty)
      rw [h.relative] at hnil
      cases hnil
    rw [if_neg hne, h.relative] at hreport
    refine ⟨hbytes (by rw [hreport]; simp), min (names.length + 1) (UInt32.size - 1), ?_, ?_, ?_⟩
    · rw [hreport, Location.depth?, Location.nameCount?_names]
      simp
    · rw [h.depth]
      exact Nat.min_le_left _ _
    · rw [hintTarget, if_neg (by simp)]
      exact Path.components_join_of_names hreport

/-! ## Levels that the tree shows -/

/-- A level of a tree: its nodes stand for nodes of the tree, and for the node at each place where the
scan goes from them, the level has a node with the same time. This is another one if the name is no
text, since the scan goes to the text that the name is shown as. -/
structure IsShown (t : MemoryTree) (root : Path) (level : List ScanNode) : Prop where
  stands : ∀ n ∈ level, ∃ names node, StandsFor n names node
  addressed : ∀ n ∈ level, ∀ node, t.node? (n.address root).components = some node →
    ∃ m ∈ level, m.modified = some node.modified

theorem isShown_ofRoot {root : Path} (hroot : t.node? root.components = some node)
    (hdir : node.kind = .directory) : IsShown t root [.ofRoot (some node.modified)] where
  stands n hn := by
    obtain rfl := List.mem_singleton.mp hn
    exact ⟨[], node, standsFor_ofRoot hdir⟩
  addressed n hn other hother := by
    obtain rfl := List.mem_singleton.mp hn
    obtain rfl := Option.some.inj (hroot.symm.trans hother)
    exact ⟨_, hn, rfl⟩

/-- The next level is shown too: a listing has an entry for each node one name below, also for one
whose name is the text that another name is shown as. -/
theorem IsShown.next {level : List ScanNode} (hreach : t.Reachable)
    (h : IsShown t request.root level) :
    IsShown t request.root (level.flatMap (listing t.view request.root)) where
  stands n hn := by
    obtain ⟨p, hp, hlisted⟩ := List.mem_flatMap.mp hn
    exact exists_standsFor_of_mem_listing hreach (h.stands p hp) n hlisted
  addressed n hn node hnode := by
    obtain ⟨p, hp, hlisted⟩ := List.mem_flatMap.mp hn
    obtain ⟨names, above, hstands⟩ := h.stands p hp
    obtain ⟨name, below, hchild, -⟩ := hstands.of_mem_listing hreach hlisted
    obtain ⟨entries, hlist, hlisting⟩ := listing_eq_of_mem hlisted
    have haddress : (n.address request.root).components =
        (p.address request.root).components ++ [.name (shown name)] := by
      rw [hchild.components_address, hstands.components_address, List.map_append, map_shown_shown]
      simp
    rw [haddress] at hnode
    have hentry := (MemoryTree.mem_readDir_iff hlist).mpr ⟨shown name, node, hnode, rfl⟩
    have hmem := List.mem_map_of_mem (f := p.child) hentry
    rw [← hlisting] at hmem
    exact ⟨_, List.mem_flatMap.mpr ⟨p, hp, hmem⟩, rfl⟩

/-- Where the scan goes from a level without newer nodes, there is no newer node. -/
theorem IsShown.newer?_eq_none {root : Path} {level : List ScanNode} {threshold : Instant}
    (h : IsShown t root level) (hold : level.find? (fun n => isNewer threshold n.modified) = none)
    (hn : n ∈ level) (hnode : t.node? (n.address root).components = some node) :
    newer? threshold (some node.modified) = none := by
  obtain ⟨m, hm, hmodified⟩ := h.addressed n hn node hnode
  rw [← hmodified]
  simpa [isNewer] using List.find?_eq_none.mp hold m hm

theorem isPlain_of_mem_readDir (hreach : t.Reachable) {p : Path} {entries : List Entry}
    (hlist : t.readDir p = .ok entries) {e : Entry} (he : e ∈ entries) :
    Path.IsPlain (Utf8.encode e.name) := by
  obtain ⟨name, below, hbelow, rfl⟩ := (MemoryTree.mem_readDir_iff hlist).mp he
  exact Path.isPlain_encode_lossy ((hreach.wellFormed.place hbelow).names name (by simp))

/-! ## The hint that has been reported -/

theorem hotPath_of_newer_root {root : Metadata} {time : Instant} (request : ScanRequest)
    (hroot : t.view.metadataFollow request.root = .ok root) (hdir : root.isDirectory = true)
    (hnewer : newer? request.threshold root.modified = some time)
    (hhint : request.hint = some .here) (stats : ScanStats) :
    hotPath t.view request stats = (some (.changed .here time), stats.visited) := by
  have husable : usableHint? request = some (.here, 0) :=
    usableHint?_eq_some_iff.mpr ⟨hhint, by decide, by decide, Nat.zero_le _⟩
  have htarget : hintTarget t.view request .here 0 = (request.root, .ok root) := by
    rw [hintTarget, if_pos rfl, hroot]
  exact hotPath_of_newer_directory husable htarget hdir hnewer stats

/-- A hint to the directory that lists the first newer node of the level below finds this node. -/
theorem hotPath_of_listed {level : List ScanNode} {p : ScanNode} {time : Instant}
    (request : ScanRequest) (hreach : t.Reachable) (hlevel : IsShown t request.root level)
    (hold : level.find? (fun n => isNewer request.threshold n.modified) = none)
    (hp : p ∈ level) (hdepth : p.depth < request.maxDepth)
    (hfind : (listing t.view request.root p).find?
      (fun n => isNewer request.threshold n.modified) = some n)
    (hnewer : newer? request.threshold n.modified = some time)
    (hhint : request.hint = some n.reportPath) (stats : ScanStats) :
    ∃ stats', hotPath t.view request stats = (some (.changed n.reportPath time), stats') := by
  obtain ⟨names, shownNode, hstands⟩ := hlevel.stands p hp
  obtain ⟨entries, hlist, hlisting⟩ := listing_eq_of_mem (List.mem_of_find?_eq_some hfind)
  rw [hlisting, List.find?_map] at hfind
  obtain ⟨e, he, rfl⟩ := Option.map_eq_some_iff.mp hfind
  obtain ⟨node, hallowed, hnode, hkind⟩ := MemoryTree.readDir_eq_ok hlist
  have hnodeOld := hlevel.newer?_eq_none hold hp hnode
  have hplain := isPlain_of_mem_readDir hreach hlist (List.mem_of_find?_eq_some he)
  obtain ⟨hne, depth, hcount, hle, hplace⟩ := hstands.hintTarget_reportPath t.view request hplain
  have husable : usableHint? request = some ((p.child e).reportPath, depth) :=
    usableHint?_eq_some_iff.mpr ⟨hhint, hne, hcount, by omega⟩
  rcases htarget : hintTarget t.view request (p.child e).reportPath depth with ⟨target, found⟩
  have hfound := hintTarget_snd t request (p.child e).reportPath depth
  rw [htarget] at hplace hfound
  rw [← hplace] at hallowed hnode
  obtain rfl : found = .ok _ :=
    hfound.trans (MemoryTree.metadata_eq_ok_iff.mpr ⟨node, hallowed, hnode, rfl⟩)
  exact hotPath_of_newer_entry husable htarget (by simp [Metadata.isDirectory, hkind]) hnodeOld
    (by omega) (MemoryTree.readDir_eq_ok_congr hlist hplace) he hnewer stats

/-- The path at which a change is reported, given as the hint, leads the hot path to the change. -/
theorem hotPath_of_found_path (hreach : t.Reachable) {path : Path} {time : Instant}
    (hchanged : scan t.view request = .changed path time) :
    ∃ root stats, t.view.metadataFollow request.root = .ok root ∧ root.isDirectory = true ∧
      hotPath t.view { request with hint := some path } .zero =
        (some (.changed path time), stats) := by
  obtain ⟨root, hroot, hdir, ⟨stats, hhot⟩ | ⟨n, hfirst, hnewer, rfl⟩⟩ := scan_eq_changed hchanged
  · -- The hot path has reported the hint itself.
    obtain ⟨hint, depth, _, _, _, hresult, -, husable, -⟩ := hotPath_eq_some hhot
    cases hresult
    refine ⟨root, stats, hroot, hdir, ?_⟩
    rw [← (usableHint?_eq_some_iff.mp husable).1]
    exact hhot
  · obtain ⟨node, -, hnode, rfl⟩ := MemoryTree.metadata_eq_ok_iff.mp hroot
    have hkind : node.kind = .directory := by simpa [Metadata.isDirectory] using hdir
    have hdepth := depth_le_of_mem_levelOrder (List.mem_of_find?_eq_some hfirst)
    rcases exists_level_of_find? _ _ (isShown_ofRoot hnode hkind) (fun _ h => h.next hreach)
      hfirst with hself | ⟨level, hlevel, hold, p, hp, hlisted⟩
    · obtain rfl := List.mem_singleton.mp (List.mem_of_find?_eq_some hself)
      exact ⟨_, _, hroot, hdir, hotPath_of_newer_root { request with hint := some .here } hroot hdir
        hnewer rfl .zero⟩
    · rw [depth_of_mem_listing (List.mem_of_find?_eq_some hlisted)] at hdepth
      obtain ⟨stats, hhot⟩ := hotPath_of_listed { request with hint := some n.reportPath } hreach
        hlevel hold hp hdepth hlisted hnewer rfl .zero
      exact ⟨_, stats, hroot, hdir, hhot⟩

theorem scan_of_found_path (hreach : t.Reachable) {path : Path} {time : Instant}
    (hchanged : scan t.view request = .changed path time) :
    scan t.view { request with hint := some path } = .changed path time := by
  obtain ⟨root, stats, hroot, hdir, hhot⟩ := hotPath_of_found_path hreach hchanged
  exact congrArg Prod.fst (withStats_of_hotPath hhot hroot hdir).1

/-- Any change that a scan reports is found again if the path at which it is reported is given as the
hint: at the same path and with the same time, by the hot path, and with at most one listing. -/
theorem withStats_of_found_path (t : MemoryTree) (request : ScanRequest) (path : Path)
    (time : Instant) (hreach : t.Reachable) (hchanged : scan t.view request = .changed path time) :
    ∃ stats, withStats t.view { request with hint := some path } = (.changed path time, stats) ∧
      stats.foundIn = some .hotPath ∧ stats.dirsListed ≤ 1 := by
  obtain ⟨root, stats, hroot, hdir, hhot⟩ := hotPath_of_found_path hreach hchanged
  obtain ⟨hscan, hlisted⟩ := withStats_of_hotPath hhot hroot hdir
  exact ⟨_, hscan, rfl, hlisted⟩

/-- Two directories that are shown alike: the name of the second one is no text, so it is shown as
the name of the first one, which holds a new file. -/
def shownAlike : MemoryTree :=
  ((((MemoryTree.empty ⟨0⟩).addDirectory (.ofString "/r") ⟨0⟩).addDirectory
    ⟨[0x2F, 0x72, 0x2F, 0xEF, 0xBF, 0xBD]⟩ ⟨3⟩).addDirectory ⟨[0x2F, 0x72, 0x2F, 0xFF]⟩ ⟨4⟩).addFile
    ⟨[0x2F, 0x72, 0x2F, 0xEF, 0xBF, 0xBD, 0x2F, 0x66]⟩ [97, 98, 99] ⟨9⟩

theorem reachable_shownAlike : shownAlike.Reachable :=
  ((((MemoryTree.Reachable.empty ⟨0⟩).step (.addDirectory _ _)).step (.addDirectory _ _)).step
    (.addDirectory _ _)).step (.addFile _ _ _)

theorem withStats_shownAlike_of_found_path :
    shownAlike.Reachable ∧
      scan shownAlike.view ⟨.ofString "/r", ⟨5⟩, 2, none⟩ =
        .changed ⟨[0xEF, 0xBF, 0xBD]⟩ ⟨9⟩ ∧
      ∃ stats, withStats shownAlike.view ⟨.ofString "/r", ⟨5⟩, 2, some ⟨[0xEF, 0xBF, 0xBD]⟩⟩ =
          (.changed ⟨[0xEF, 0xBF, 0xBD]⟩ ⟨9⟩, stats) ∧
        stats.foundIn = some .hotPath ∧ stats.dirsListed ≤ 1 := by
  have hroot : shownAlike.view.metadataFollow (.ofString "/r") =
      .ok ⟨.directory, 0, some ⟨0⟩⟩ := rfl
  have hchanged : scan shownAlike.view ⟨.ofString "/r", ⟨5⟩, 2, none⟩ =
      .changed ⟨[0xEF, 0xBF, 0xBD]⟩ ⟨9⟩ := by
    rw [scan, withStats_of_no_hint hroot rfl rfl]
    decide
  exact ⟨reachable_shownAlike, hchanged, withStats_of_found_path shownAlike
    ⟨.ofString "/r", ⟨5⟩, 2, none⟩ _ _ reachable_shownAlike hchanged⟩

end Scan

end IncrementalBackup
