import IncrementalBackup.Proofs.Path.Names
import IncrementalBackup.Proofs.Scan.FullScan
import IncrementalBackup.Proofs.Storage.Reachable

/-!
# What a scan of a tree gets to see

A scan goes down by the names that listings show. A name that is no text is shown as another one, so
what such a node holds stays out of sight, unless a node of the other name holds it as well. All other
nodes that are not too deep and lie below directories are seen.
-/

namespace IncrementalBackup

namespace Scan

/-- A name as a listing shows it. -/
def shown (name : List UInt8) : List UInt8 := Utf8.encode (Utf8.lossy name)

theorem isValid_shown (name : List UInt8) : Utf8.isValid (shown name) = true :=
  Utf8.isValid_encode _

theorem shown_of_isValid {name : List UInt8} (h : Utf8.isValid name = true) : shown name = name :=
  Utf8.encode_lossy_of_isValid h

theorem map_shown_of_isValid {names : List (List UInt8)}
    (h : ∀ name ∈ names, Utf8.isValid name = true) : names.map shown = names := by
  calc
    names.map shown = names.map id :=
      List.map_congr_left fun name hname => shown_of_isValid (h name hname)
    _ = names := names.map_id

theorem map_shown_shown (names : List (List UInt8)) :
    (names.map shown).map shown = names.map shown := by
  apply map_shown_of_isValid
  rw [List.forall_mem_map]
  exact fun name _ => isValid_shown name

/-- The nodes strictly between a root and some names below it are directories, and their names are
texts. -/
structure LiesOpen (t : MemoryTree) (root : Location) (names : List (List UInt8)) : Prop where
  directories : ∀ above, above <+: names → above ≠ [] → above ≠ names →
    t.HasDirectory (root ++ above.map .name)
  texts : ∀ name ∈ names.dropLast, Utf8.isValid name = true

variable {t : MemoryTree} {root : Location} {names : List (List UInt8)} {name : List UInt8}

theorem liesOpen_nil (t : MemoryTree) (root : Location) : LiesOpen t root [] where
  directories _ hle hne := absurd (List.prefix_nil.mp hle) hne
  texts := nofun

theorem liesOpen_concat : LiesOpen t root (names ++ [name]) ↔
    LiesOpen t root names ∧ (names ≠ [] → t.HasDirectory (root ++ names.map .name)) ∧
      ∀ other ∈ names, Utf8.isValid other = true := by
  constructor
  · intro h
    have htexts : ∀ other ∈ names, Utf8.isValid other = true := by
      have htexts := h.texts
      rwa [List.dropLast_concat] at htexts
    refine ⟨⟨?_, fun other hother => htexts other (List.dropLast_subset _ hother)⟩, ?_, htexts⟩
    · intro above hle hne hproper
      apply h.directories above (hle.trans (List.prefix_append _ _)) hne
      rintro rfl
      exact absurd hle.length_le (by simp)
    · intro hne
      exact h.directories names (List.prefix_append _ _) hne (by simp)
  · rintro ⟨hopen, hdirectory, htexts⟩
    constructor
    · intro above hle hne hproper
      have habove := (List.prefix_concat_iff.mp hle).resolve_left hproper
      by_cases hself : above = names
      · exact hself ▸ hdirectory (hself ▸ hne)
      · exact hopen.directories above habove hne hself
    · rwa [List.dropLast_concat]

/-- Only the last name can be shown as another one, and nothing is asked of it. -/
theorem LiesOpen.map_shown (h : LiesOpen t root names) : LiesOpen t root (names.map shown) := by
  rcases List.eq_nil_or_concat names with rfl | ⟨above, name, rfl⟩
  · exact h
  · rw [List.concat_eq_append] at h ⊢
    have hparts := liesOpen_concat.mp h
    rw [List.map_append, List.map_singleton, map_shown_of_isValid hparts.2.2]
    exact liesOpen_concat.mpr hparts

/-! ## Nodes of the scan and nodes of the tree -/

/-- A node of a scan that stands for the node of a tree at some names below the root. -/
structure StandsFor (n : ScanNode) (names : List (List UInt8)) (node : MemoryNode) : Prop where
  depth : n.depth = names.length
  relative : n.relative.components = (names.map shown).map .name
  kind : n.kind = node.kind
  modified : n.modified = some node.modified

variable {request : ScanRequest} {n : ScanNode} {node : MemoryNode}

theorem standsFor_ofRoot (hdir : node.kind = .directory) :
    StandsFor (.ofRoot (some node.modified)) [] node :=
  ⟨rfl, rfl, hdir.symm, rfl⟩

theorem StandsFor.components_address (h : StandsFor n names node) (root : Path) :
    (n.address root).components = root.components ++ (names.map shown).map .name := by
  rw [ScanNode.address, ← h.relative]
  split
  · rename_i hempty
    have hnil : n.relative.components = [] :=
      Path.components_eq_nil_iff.mpr (List.isEmpty_iff.mp hempty)
    rw [hnil, List.append_nil]
  · rw [h.relative]
    exact Path.components_join_of_names h.relative

theorem StandsFor.child (h : StandsFor n names node) (hname : Path.IsPlain name)
    (below : MemoryNode) :
    StandsFor (n.child ⟨Utf8.lossy name, below.kind, below.data.length, some below.modified⟩)
      (names.map shown ++ [name]) below := by
  refine ⟨?_, ?_, rfl, rfl⟩
  · rw [ScanNode.child, h.depth]
    simp
  · have hplain : Path.IsPlain (shown name) := Path.isPlain_encode_lossy hname
    have hjoin : (n.relative.join ⟨shown name⟩).components =
        n.relative.components ++ [.name (shown name)] := Path.components_join_of_isPlain _ hplain
    rw [List.map_append, map_shown_shown, List.map_append, ← h.relative]
    exact hjoin

/-- What is listed in a node that stands for one of the tree does so again: for the nodes one name
below the place that the scan goes to. -/
theorem StandsFor.of_mem_listing (hreach : t.Reachable) (h : StandsFor n names node)
    {m : ScanNode} (hm : m ∈ listing t.view request.root n) :
    ∃ name below, StandsFor m (names.map shown ++ [name]) below ∧
      t.node? (request.root.components ++ (names.map shown ++ [name]).map .name) = some below ∧
      t.HasDirectory (request.root.components ++ (names.map shown).map .name) := by
  obtain ⟨entries, hlist, e, he, rfl⟩ := exists_entry_of_mem_listing hm
  obtain ⟨name, below, hbelow, rfl⟩ := (MemoryTree.mem_readDir_iff hlist).mp he
  obtain ⟨d, -, hd, hkind⟩ := MemoryTree.readDir_eq_ok hlist
  have hplain : Path.IsPlain name := (hreach.wellFormed.place hbelow).names name (by simp)
  rw [h.components_address] at hd hbelow
  refine ⟨name, below, h.child hplain below, ?_, d, hd, hkind⟩
  rwa [List.map_append, ← List.append_assoc]

theorem exists_standsFor_of_mem_listing (hreach : t.Reachable)
    (h : ∃ names node, StandsFor n names node) :
    ∀ m ∈ listing t.view request.root n, ∃ names node, StandsFor m names node := by
  intro m hm
  obtain ⟨names, node, hstands⟩ := h
  obtain ⟨name, below, hchild, -⟩ := hstands.of_mem_listing hreach hm
  exact ⟨_, below, hchild⟩

/-- Every node of the level order stands for one of the tree that lies open. -/
theorem exists_of_mem_levelOrder (hreach : t.Reachable) {rootNode : MemoryNode}
    (hroot : t.node? request.root.components = some rootNode) (hdir : rootNode.kind = .directory) :
    ∀ n ∈ levelOrder t.view request (some rootNode.modified), ∃ names node,
      StandsFor n names node ∧
        t.node? (request.root.components ++ names.map .name) = some node ∧
        LiesOpen t request.root.components names := by
  apply forall_mem_levelsFrom
  · intro n hn
    obtain rfl := List.mem_singleton.mp hn
    exact ⟨[], rootNode, standsFor_ofRoot hdir, by simpa using hroot, liesOpen_nil t _⟩
  · rintro p ⟨names, node, hstands, -, hopen⟩ n hlisted
    obtain ⟨name, below, hchild, hbelow, hdirectory⟩ := hstands.of_mem_listing hreach hlisted
    refine ⟨names.map shown ++ [name], below, hchild, hbelow,
      liesOpen_concat.mpr ⟨hopen.map_shown, fun _ => hdirectory, ?_⟩⟩
    rw [List.forall_mem_map]
    exact fun name _ => isValid_shown name

/-- Every node of the tree that lies open and not too deep has one in the level order that stands for
it. -/
theorem exists_standsFor (hreach : t.Reachable) (hallowed : ∀ l, t.IsAllowed l)
    {rootNode : MemoryNode} (hroot : t.node? request.root.components = some rootNode)
    (hdir : rootNode.kind = .directory) (hopen : LiesOpen t request.root.components names)
    (hdepth : names.length ≤ request.maxDepth)
    (hn : t.node? (request.root.components ++ names.map .name) = some node) :
    ∃ n ∈ levelOrder t.view request (some rootNode.modified), StandsFor n names node := by
  induction names using List.reverseRecOn generalizing node with
  | nil =>
    rw [List.map_nil, List.append_nil, hroot] at hn
    obtain rfl := Option.some.inj hn
    exact ⟨.ofRoot (some rootNode.modified), ofRoot_mem_levelOrder _, standsFor_ofRoot hdir⟩
  | append_singleton names name ih =>
    rw [List.length_append, List.length_singleton] at hdepth
    rw [List.map_append, List.map_singleton, ← List.append_assoc] at hn
    obtain ⟨hopen, hdirectory, htexts⟩ := liesOpen_concat.mp hopen
    -- The place above is a directory that the scan lists.
    obtain ⟨above, habove, hkind⟩ :
        t.HasDirectory (request.root.components ++ names.map .name) := by
      by_cases hnil : names = []
      · exact ⟨rootNode, by simpa [hnil] using hroot, hdir⟩
      · exact hdirectory hnil
    obtain ⟨p, hp, hstands⟩ := ih hopen (by omega) habove
    have hplain : Path.IsPlain name := (hreach.wellFormed.place hn).names name (by simp)
    have haddress := hstands.components_address request.root
    rw [map_shown_of_isValid htexts] at haddress
    rw [← haddress] at hn habove
    have hlist : t.view.readDir (p.address request.root) = _ :=
      MemoryTree.readDir_of_isDirectory (hallowed _) habove hkind
    have hentry := (MemoryTree.mem_readDir_iff hlist).mpr ⟨name, node, hn, rfl⟩
    have hchild := hstands.child hplain node
    rw [map_shown_of_isValid htexts] at hchild
    refine ⟨_, mem_levelOrder_of_mem_listing hp (by rw [hstands.depth]; omega) ?_, hchild⟩
    rw [listing, if_pos (hstands.kind.trans hkind), hlist]
    exact List.mem_map.mpr ⟨_, hentry, rfl⟩

/-- A scan without a hint finds a change if the root is newer, or a node that is not too deep and
lies below directories whose names are texts. -/
theorem hasChanges_scan_iff_newer_in_scope (t : MemoryTree) (request : ScanRequest)
    (root : MemoryNode) (hreach : t.Reachable) (hallowed : ∀ l, t.IsAllowed l)
    (hroot : t.node? request.root.components = some root) (hdir : root.kind = .directory)
    (hhint : request.hint = none) :
    (scan t.view request).hasChanges = true ↔
      request.threshold < root.modified ∨
        ∃ names node, names ≠ [] ∧ names.length ≤ request.maxDepth ∧
          t.node? (request.root.components ++ names.map .name) = some node ∧
          LiesOpen t request.root.components names ∧ request.threshold < node.modified := by
  have hmeta : t.view.metadataFollow request.root = .ok _ :=
    MemoryTree.metadata_eq_ok_iff.mpr ⟨root, hallowed _, hroot, rfl⟩
  have hdirectory :
      Metadata.isDirectory ⟨root.kind, root.data.length, some root.modified⟩ = true := by
    simp [Metadata.isDirectory, hdir]
  rw [hasChanges_scan_levelOrder hmeta hdirectory hhint]
  constructor
  · rintro ⟨n, hn, time, hmodified, hnewer⟩
    obtain ⟨names, node, hstands, hnode, hopen⟩ := exists_of_mem_levelOrder hreach hroot hdir n hn
    obtain rfl : node.modified = time := Option.some.inj (hstands.modified.symm.trans hmodified)
    by_cases hnil : names = []
    · rw [hnil, List.map_nil, List.append_nil, hroot] at hnode
      obtain rfl := Option.some.inj hnode
      exact .inl hnewer
    · have hdepth := depth_le_of_mem_levelOrder hn
      rw [hstands.depth] at hdepth
      exact .inr ⟨names, node, hnil, hdepth, hnode, hopen, hnewer⟩
  · rintro (hnewer | ⟨names, node, -, hdepth, hnode, hopen, hnewer⟩)
    · exact ⟨.ofRoot (some root.modified), ofRoot_mem_levelOrder _, root.modified, rfl, hnewer⟩
    · obtain ⟨n, hn, hstands⟩ := exists_standsFor hreach hallowed hroot hdir hopen hdepth hnode
      exact ⟨n, hn, node.modified, hstands.modified, hnewer⟩

/-- A new file in a directory whose name is no text. -/
def hiddenFile : MemoryTree :=
  (((MemoryTree.empty ⟨0⟩).addDirectory (.ofString "/r") ⟨0⟩).addDirectory
    ⟨[0x2F, 0x72, 0x2F, 0xFF]⟩ ⟨0⟩).addFile ⟨[0x2F, 0x72, 0x2F, 0xFF, 0x2F, 0x66]⟩ [97, 98, 99] ⟨9⟩

theorem reachable_hiddenFile : hiddenFile.Reachable :=
  (((MemoryTree.Reachable.empty ⟨0⟩).step (.addDirectory _ _)).step (.addDirectory _ _)).step
    (.addFile _ _ _)

/-- The directory is shown by a replacement character, and there is nothing of that name. -/
theorem scan_misses_file_below_shown_name :
    hiddenFile.Reachable ∧ (∀ l, hiddenFile.IsAllowed l) ∧
      hiddenFile.node? (Path.ofString "/r").components = some ⟨.directory, ⟨0⟩, []⟩ ∧
      hiddenFile.node? ((Path.ofString "/r").components ++ [.name [0xFF]]) =
        some ⟨.directory, ⟨0⟩, []⟩ ∧
      hiddenFile.node? ((Path.ofString "/r").components ++ [.name [0xFF], .name [0x66]]) =
        some ⟨.file, ⟨9⟩, [97, 98, 99]⟩ ∧
      (scan hiddenFile.view ⟨.ofString "/r", ⟨5⟩, 2, none⟩).hasChanges = false := by
  refine ⟨reachable_hiddenFile, fun _ => Bool.false_ne_true, by decide, by decide, by decide, ?_⟩
  have hroot : hiddenFile.view.metadataFollow (.ofString "/r") =
      .ok ⟨.directory, 0, some ⟨0⟩⟩ := rfl
  rw [← Bool.not_eq_true, hasChanges_scan_levelOrder hroot rfl rfl]
  decide

/-- A new file whose own name is no text. -/
def oddFile : MemoryTree :=
  (((MemoryTree.empty ⟨0⟩).addDirectory (.ofString "/r") ⟨0⟩).addDirectory (.ofString "/r/d")
    ⟨0⟩).addFile ⟨[0x2F, 0x72, 0x2F, 0x64, 0x2F, 0xFF]⟩ [97, 98, 99] ⟨9⟩

theorem reachable_oddFile : oddFile.Reachable :=
  (((MemoryTree.Reachable.empty ⟨0⟩).step (.addDirectory _ _)).step (.addDirectory _ _)).step
    (.addFile _ _ _)

theorem scan_finds_file_of_shown_name :
    oddFile.Reachable ∧ LiesOpen oddFile (Path.ofString "/r").components [[0x64], [0xFF]] ∧
      (scan oddFile.view ⟨.ofString "/r", ⟨5⟩, 2, none⟩).hasChanges = true := by
  have hopen : LiesOpen oddFile (Path.ofString "/r").components [[0x64], [0xFF]] :=
    liesOpen_concat.mpr ⟨liesOpen_concat.mpr ⟨liesOpen_nil _ _, by simp, nofun⟩,
      fun _ => ⟨⟨.directory, ⟨0⟩, []⟩, by decide, rfl⟩, by decide⟩
  refine ⟨reachable_oddFile, hopen, ?_⟩
  rw [hasChanges_scan_iff_newer_in_scope oddFile ⟨.ofString "/r", ⟨5⟩, 2, none⟩
    ⟨.directory, ⟨0⟩, []⟩ reachable_oddFile (fun _ => Bool.false_ne_true) (by decide) rfl rfl]
  right
  exact ⟨[[0x64], [0xFF]], ⟨.file, ⟨9⟩, [97, 98, 99]⟩, by decide, by decide, by decide, hopen,
    by decide⟩

end Scan

end IncrementalBackup
