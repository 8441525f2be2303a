import IncrementalBackup.Proofs.Storage.Reachable

/-!
# What a listing shows

A listing looks at a stretch of the map of nodes only. What it shows is nevertheless what going
through all nodes would show: every node that lies directly below the place under a name, once, in
the order of the names.
-/

namespace IncrementalBackup

open OrderedMap

namespace Location

variable {l above : Location} {name : List UInt8}

/-- The name of a place directly in another one; other places have none there. -/
def nameIn? (l above : Location) : Option (List UInt8) :=
  if l.dropLast = above then l.fileName? else none

theorem nameIn?_eq_some_iff : l.nameIn? above = some name ↔ l = above ++ [.name name] := by
  rw [nameIn?, Option.ite_none_right_eq_some, fileName?_eq_some_iff]
  rcases List.eq_nil_or_concat l with rfl | ⟨front, c, rfl⟩
  · simp
  · rw [List.concat_eq_append, List.dropLast_concat, List.getLast?_concat, Option.some.injEq,
      List.append_singleton_inj]

/-- A name is only had in the place above. -/
theorem nameIn?_eq (l above : Location) :
    l.nameIn? above = if l.parent? = some above then l.fileName? else none := by
  ext name
  rw [nameIn?_eq_some_iff, Option.ite_none_right_eq_some, parent?_eq_some_iff,
    fileName?_eq_some_iff]
  constructor
  · rintro rfl
    exact ⟨⟨.name name, nofun, rfl⟩, List.getLast?_concat⟩
  · rintro ⟨⟨c, -, rfl⟩, hname⟩
    rw [List.getLast?_concat] at hname
    rw [Option.some.inj hname]

theorem compare_siblings (l : Location) (a b : List UInt8) :
    compare (l ++ [.name a]) (l ++ [.name b]) = compareBytes a b := by
  unfold compare
  induction l with
  | nil =>
    rw [List.nil_append, List.nil_append, List.compareLex_cons_cons, List.compareLex_nil_nil,
      Ordering.then_eq]
    rfl
  | cons c l ih =>
    have hself : Component.compare c c = .eq := Std.ReflCmp.compare_self
    rw [List.cons_append, List.cons_append, List.compareLex_cons_cons, hself, ih]
    rfl

end Location

namespace MemoryTree

variable {t : MemoryTree} {p : Path} {l : Location} {n : MemoryNode}

/-- Of all nodes those that lie directly in a place under a name, each with that name. -/
def namedIn (t : MemoryTree) (l : Location) : List (List UInt8 × MemoryNode) :=
  t.nodes.entries.filterMap fun e => (e.1.nameIn? l).map fun name => (name, e.2)

theorem mem_namedIn_iff {name : List UInt8} :
    (name, n) ∈ t.namedIn l ↔ t.node? (l ++ [.name name]) = some n := by
  change _ ↔ t.nodes.get? _ = some n
  simp only [namedIn, List.mem_filterMap, Option.map_eq_some_iff, Location.nameIn?_eq_some_iff,
    get?_eq_some_iff]
  constructor
  · rintro ⟨⟨place, m⟩, he, name, rfl, heq⟩
    cases heq
    exact he
  · intro he
    exact ⟨_, he, name, rfl, rfl⟩

theorem pairwise_namedIn (t : MemoryTree) (l : Location) :
    (t.namedIn l).Pairwise fun a b => compareBytes a.1 b.1 = .lt := by
  refine List.Pairwise.filterMap _ (fun e e' hlt a ha b hb => ?_) t.nodes.increasing
  obtain ⟨name, hname, rfl⟩ := Option.map_eq_some_iff.mp ha
  obtain ⟨name', hname', rfl⟩ := Option.map_eq_some_iff.mp hb
  rw [Location.nameIn?_eq_some_iff.mp hname, Location.nameIn?_eq_some_iff.mp hname',
    Location.compare_siblings] at hlt
  exact hlt

/-- The stretch of the map leaves out no node directly below, and takes in no other. -/
theorem children_eq_filter (h : (t.node? l).isSome = true) :
    t.children l = t.nodes.entries.filter fun e => e.1.parent? == some l := by
  have hsorted : (t.children l).Pairwise fun a b => compareBy Prod.fst Location.compare a b = .lt :=
    pairwise_children t l
  refine eq_of_mem_iff hsorted (t.nodes.increasing.filter _) fun e => ?_
  rw [mem_children_iff h, List.mem_filter, beq_iff_eq]
  exact and_congr_left fun _ => get?_eq_some_iff

theorem filterMap_entry?_children (h : (t.node? l).isSome = true) :
    (t.children l).filterMap (fun e => entry? e.1 e.2) =
      (t.namedIn l).map fun e => ⟨Utf8.lossy e.1, e.2.kind, e.2.data.length, some e.2.modified⟩ := by
  rw [children_eq_filter h, List.filterMap_filter, namedIn, List.map_filterMap]
  refine List.filterMap_congr fun e _ => ?_
  rw [Location.nameIn?_eq]
  by_cases hparent : e.1.parent? = some l
  · simp [hparent, entry?, Function.comp_def]
  · simp [hparent]

/-! ## Paths that are listed -/

/-- What a place holds under names: each name once, in the order of their bytes, with the node of a
path that lies there and ends in that name. -/
structure IsListing (t : MemoryTree) (p : Path) (listed : List (List UInt8 × MemoryNode)) : Prop where
  increasing : listed.Pairwise fun a b => compareBytes a.1 b.1 = .lt
  mem_iff : ∀ name n, (name, n) ∈ listed ↔
    ∃ child : Path, child.parent?.map Path.components = some p.components ∧
      child.fileName? = some name ∧ t.node? child.components = some n

theorem components_of_fileName? {child : Path} {name : List UInt8}
    (hparent : child.parent?.map Path.components = some l) (hname : child.fileName? = some name) :
    child.components = l ++ [.name name] := by
  rw [Path.components_parent?, Location.parent?_eq_some_iff] at hparent
  obtain ⟨c, -, hc⟩ := hparent
  rw [Path.fileName?, Location.fileName?_eq_some_iff, hc, List.getLast?_concat] at hname
  rw [hc, Option.some.inj hname]

/-- A name that is there is plain, so it is a path, and leads there from the place. -/
theorem isListing_namedIn (h : Reachable t) (p : Path) : t.IsListing p (t.namedIn p.components) where
  increasing := pairwise_namedIn t p.components
  mem_iff name n := by
    rw [mem_namedIn_iff]
    constructor
    · intro hn
      have hplain : Path.IsPlain name :=
        (h.wellFormed.place hn).names name (List.mem_append_right _ List.mem_cons_self)
      have hchild := Path.components_join_of_isPlain p hplain
      refine ⟨p.join ⟨name⟩, ?_, ?_, hchild ▸ hn⟩
      · rw [Path.components_parent?, hchild]
        exact Location.parent?_eq_some_iff.mpr ⟨.name name, nofun, rfl⟩
      · rw [Path.fileName?, hchild]
        exact Location.fileName?_eq_some_iff.mpr List.getLast?_concat
    · rintro ⟨child, hparent, hname, hn⟩
      rwa [components_of_fileName? hparent hname] at hn

/-! ## Listings that are refused -/

theorem readDir_of_not_isAllowed (hp : ¬ t.IsAllowed p.components) :
    t.readDir p = .error (.storage ⟨p, .bare .permissionDenied, none⟩) := by
  have hdenied : t.denied.contains p.components = true := Decidable.not_not.mp hp
  rw [readDir, node, checkAccess, if_pos hdenied]

theorem readDir_of_none (hp : t.IsAllowed p.components) (hn : t.node? p.components = none) :
    t.readDir p = .error (.notFound p) := by
  rw [readDir, node, checkAccess_of_isAllowed hp, hn]

theorem readDir_of_not_directory (hp : t.IsAllowed p.components)
    (hn : t.node? p.components = some n) (hdir : n.kind ≠ .directory) :
    t.readDir p = .error (.notADirectory p) := by
  rw [readDir, node_eq_ok_iff.mpr ⟨hp, hn⟩]
  exact if_pos hdir

/-- A listing is refused where access is denied, where nothing is, and where no directory is.
Otherwise it shows every node directly below under its name, and nothing else. -/
theorem readDir_shows_listing (h : Reachable t) (p : Path) :
    (¬ t.IsAllowed p.components →
      t.readDir p = .error (.storage ⟨p, .bare .permissionDenied, none⟩)) ∧
    (t.IsAllowed p.components → t.node? p.components = none → t.readDir p = .error (.notFound p)) ∧
    (∀ n, t.IsAllowed p.components → t.node? p.components = some n → n.kind ≠ .directory →
      t.readDir p = .error (.notADirectory p)) ∧
    (∀ n, t.IsAllowed p.components → t.node? p.components = some n → n.kind = .directory →
      ∃ listed, t.IsListing p listed ∧
        t.readDir p = .ok (listed.map fun e =>
          ⟨Utf8.lossy e.1, e.2.kind, e.2.data.length, some e.2.modified⟩)) := by
  refine ⟨readDir_of_not_isAllowed, readDir_of_none, fun n => readDir_of_not_directory, ?_⟩
  intro n hp hn hdir
  refine ⟨t.namedIn p.components, isListing_namedIn h p, ?_⟩
  rw [readDir_of_isDirectory hp hn hdir,
    filterMap_entry?_children (Option.isSome_iff_exists.mpr ⟨n, hn⟩)]

/-- A directory with neighbours of similar names, a name that is no text, a path that ends in no
name, and a denied directory below. -/
def neighbours : MemoryTree :=
  ((((((((MemoryTree.empty ⟨0⟩).addFile (.ofString "/r/b") [1, 2] ⟨4⟩).addFile
    (.ofString "/r/a/f") [1] ⟨3⟩).addFile (.ofString "/rr") [] ⟨5⟩).addFile
    (.ofString "/r-/x") [] ⟨6⟩).addSymlink ⟨[0x2F, 0x72, 0x2F, 0xFF]⟩ ⟨7⟩).addDirectory
    (.ofString "/r/..") ⟨8⟩).deny (.ofString "/r/a"))

theorem reachable_neighbours : neighbours.Reachable :=
  (((((((MemoryTree.Reachable.empty ⟨0⟩).step (.addFile _ _ _)).step (.addFile _ _ _)).step
    (.addFile _ _ _)).step (.addFile _ _ _)).step (.addSymlink _ _)).step (.addDirectory _ _)).step
    (.deny _)

theorem readDir_neighbours :
    neighbours.Reachable ∧
      neighbours.readDir (.ofString "/r/a") =
        .error (.storage ⟨.ofString "/r/a", .bare .permissionDenied, none⟩) ∧
      neighbours.readDir (.ofString "/s") = .error (.notFound (.ofString "/s")) ∧
      neighbours.readDir (.ofString "/rr") = .error (.notADirectory (.ofString "/rr")) ∧
      (∃ listed, neighbours.IsListing (.ofString "/r/") listed ∧
        neighbours.readDir (.ofString "/r/") = .ok (listed.map fun e =>
          ⟨Utf8.lossy e.1, e.2.kind, e.2.data.length, some e.2.modified⟩)) ∧
      neighbours.readDir (.ofString "/r/") = .ok
        [⟨"a", .directory, 0, some ⟨0⟩⟩, ⟨"b", .file, 2, some ⟨4⟩⟩,
          ⟨"\uFFFD", .symlink, 0, some ⟨7⟩⟩] := by
  refine ⟨reachable_neighbours,
    (readDir_shows_listing reachable_neighbours (.ofString "/r/a")).1 (by decide),
    (readDir_shows_listing reachable_neighbours (.ofString "/s")).2.1 (by decide) (by decide),
    (readDir_shows_listing reachable_neighbours (.ofString "/rr")).2.2.1 ⟨.file, ⟨5⟩, []⟩
      (by decide) (by decide) (by decide),
    (readDir_shows_listing reachable_neighbours (.ofString "/r/")).2.2.2 ⟨.directory, ⟨0⟩, []⟩
      (by decide) (by decide) (by decide), by decide +kernel⟩

end MemoryTree

end IncrementalBackup
