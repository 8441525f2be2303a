import IncrementalBackup.Proofs.OrderedMap
import IncrementalBackup.Proofs.Path.Location
import IncrementalBackup.Storage.MemoryTree

/-!
# Nodes of trees in memory

Each operation on a tree is described by the nodes that are there after it. A directory that can be
read lists exactly the nodes one name below it.
-/

namespace IncrementalBackup.MemoryTree

open OrderedMap

variable {t : MemoryTree} {p : Path} {l : Location}

/-! ## Nodes after an operation -/

theorem get?_withAncestors (nodes : OrderedMap Location MemoryNode Location.compare)
    (place l : Location) :
    (withAncestors nodes place).get? l =
      if l ∈ place.ancestors then some ((nodes.get? l).getD ⟨.directory, .epoch, []⟩)
      else nodes.get? l := by
  rw [withAncestors, get?_foldl_insertIfNew]
  by_cases h : l ∈ place.ancestors <;> simp [h]

theorem node?_put (t : MemoryTree) (p : Path) (n : MemoryNode) (l : Location) :
    (t.put p n).node? l =
      if l = p.components then some n
      else if l ∈ p.components.ancestors then some ((t.node? l).getD ⟨.directory, .epoch, []⟩)
      else t.node? l := by
  rw [node?, put, get?_insert, get?_withAncestors]
  rfl

theorem node?_setModified (t : MemoryTree) (p : Path) (modified : Instant) (l : Location) :
    (t.setModified p modified).node? l =
      if l = p.components then (t.node? p.components).map ({ · with modified }) else t.node? l :=
  get?_modify _ _ _ _

theorem node?_setContents (t : MemoryTree) (p : Path) (data : List UInt8) (l : Location) :
    (t.setContents p data).node? l =
      if l = p.components then (t.node? p.components).map ({ · with data }) else t.node? l :=
  get?_modify _ _ _ _

/-! ## Access -/

def IsAllowed (t : MemoryTree) (l : Location) : Prop := ¬ t.denied.contains l = true

instance (t : MemoryTree) (l : Location) : Decidable (t.IsAllowed l) :=
  inferInstanceAs (Decidable (¬ t.denied.contains l = true))

theorem checkAccess_of_isAllowed (h : t.IsAllowed p.components) : t.checkAccess p = .ok () :=
  if_neg h

theorem node_eq_ok_iff {n : MemoryNode} :
    t.node p = .ok n ↔ t.IsAllowed p.components ∧ t.node? p.components = some n := by
  by_cases hp : t.IsAllowed p.components
  · simp only [node, checkAccess_of_isAllowed hp, hp, true_and]
    cases t.node? p.components <;> simp
  · have hdenied : t.denied.contains p.components = true := Decidable.not_not.mp hp
    simp [node, checkAccess, hdenied, hp]

theorem metadata_eq_ok_iff {m : Metadata} :
    t.metadata p = .ok m ↔ ∃ n, t.IsAllowed p.components ∧ t.node? p.components = some n ∧
      m = ⟨n.kind, n.data.length, some n.modified⟩ := by
  simp only [← and_assoc, ← node_eq_ok_iff]
  rw [metadata]
  cases t.node p <;> simp [Except.map, eq_comm]

theorem contains_view_iff :
    t.view.contains p = true ↔ ∃ n, t.IsAllowed p.components ∧ t.node? p.components = some n := by
  simp only [← node_eq_ok_iff]
  change (t.metadata p).isOk = true ↔ _
  rw [metadata]
  cases t.node p <;> simp [Except.map, Except.isOk, Except.toBool]

theorem isDirectory_view_iff :
    t.view.isDirectory p = true ↔
      ∃ n, t.IsAllowed p.components ∧ t.node? p.components = some n ∧ n.kind = .directory := by
  simp only [← and_assoc, ← node_eq_ok_iff]
  have hview : t.view.metadata p = t.metadata p := rfl
  rw [View.isDirectory, hview, metadata]
  cases t.node p <;> simp [Except.map, Metadata.isDirectory]

def HasDirectory (t : MemoryTree) (l : Location) : Prop :=
  ∃ n, t.node? l = some n ∧ n.kind = .directory

theorem isDirectory_view_iff_hasDirectory :
    t.view.isDirectory p = true ↔ t.IsAllowed p.components ∧ t.HasDirectory p.components := by
  rw [isDirectory_view_iff, HasDirectory, exists_and_left]

theorem isDirectory_view_congr {q : Path} (h : p.components = q.components) :
    t.view.isDirectory p = true ↔ t.view.isDirectory q = true := by
  rw [isDirectory_view_iff, isDirectory_view_iff, h]

/-! ## Listings -/

theorem pairwise_children (t : MemoryTree) (l : Location) :
    (t.children l).Pairwise (fun a b => Location.compare a.1 b.1 = .lt) := by
  rw [children, entriesFrom_eq_filter]
  exact (((t.nodes.increasing.filter _).drop).sublist (List.takeWhile_sublist _)).filter _

/-- What follows a node in the map, as long as it lies below it, is everything that does. -/
theorem mem_children_iff (h : (t.node? l).isSome = true) {e : Location × MemoryNode} :
    e ∈ t.children l ↔ t.node? e.1 = some e.2 ∧ e.1.parent? = some l := by
  obtain ⟨n, hn⟩ := Option.isSome_iff_exists.mp h
  have hmem : (l, n) ∈ t.nodes.entries := get?_eq_some_iff.mp hn
  have hself : Location.compare l l = .eq := Std.ReflCmp.compare_self
  have hfrom := entriesFrom_eq_filter t.nodes l
  have hhead : (l, n) ∈ t.nodes.entriesFrom l := by simp [hfrom, hmem, hself]
  have hsorted : (t.nodes.entriesFrom l).Pairwise (fun a b => Location.compare a.1 b.1 = .lt) := by
    rw [hfrom]
    exact t.nodes.increasing.filter _
  have hnot : ∀ a ∈ t.nodes.entriesFrom l, Location.compare a.1 l ≠ .lt := by
    intro a ha
    rw [hfrom] at ha
    simpa using (List.mem_filter.mp ha).2
  obtain ⟨a, rest, hcons⟩ := List.exists_cons_of_ne_nil (List.ne_nil_of_mem hhead)
  rw [hcons] at hhead hsorted hnot
  obtain ⟨hfirst, hrest⟩ := List.pairwise_cons.mp hsorted
  have ha : a = (l, n) := by
    rcases List.mem_cons.mp hhead with h | h
    · exact h.symm
    · exact absurd (hfirst _ h) (hnot a List.mem_cons_self)
  subst ha
  have hbelow : rest.takeWhile (fun e => e.1.startsWith l) = rest.filter (fun e => e.1.startsWith l) := by
    refine takeWhile_eq_filter (hrest.imp_of_mem fun {a b} ha _ hab hb => ?_)
    rw [Location.startsWith_iff] at hb ⊢
    exact Location.prefix_of_between hb (hfirst a ha) hab
  rw [children, hcons, List.drop_one, List.tail_cons, hbelow, List.mem_filter, List.mem_filter,
    beq_iff_eq, Location.startsWith_iff]
  change _ ↔ t.nodes.get? e.1 = some e.2 ∧ _
  rw [get?_eq_some_iff]
  constructor
  · rintro ⟨⟨he, -⟩, hparent⟩
    have hentry : e ∈ t.nodes.entriesFrom l := hcons ▸ List.mem_cons_of_mem _ he
    rw [hfrom] at hentry
    exact ⟨(List.mem_filter.mp hentry).1, hparent⟩
  · rintro ⟨he, hparent⟩
    obtain ⟨c, -, hc⟩ := Location.parent?_eq_some_iff.mp hparent
    have hlt : Location.compare l e.1 = .lt := hc ▸ Location.compare_append l c []
    have hgt : Location.compare e.1 l = .gt := Std.OrientedCmp.gt_of_lt hlt
    have hentry : e ∈ t.nodes.entriesFrom l := by simp [hfrom, he, hgt]
    rw [hcons] at hentry
    rcases List.mem_cons.mp hentry with rfl | hentry
    · exact absurd rfl (ne_of_compare_lt hlt)
    · exact ⟨⟨hentry, hc ▸ List.prefix_append l [c]⟩, hparent⟩

theorem entry?_eq_some_iff {n : MemoryNode} {e : Entry} :
    entry? l n = some e ↔ ∃ name, l.fileName? = some name ∧
      e = ⟨Utf8.lossy name, n.kind, n.data.length, some n.modified⟩ := by
  unfold entry?
  rw [Option.map_eq_some_iff]
  exact exists_congr fun name => and_congr_right fun _ => eq_comm

theorem readDir_of_isDirectory {n : MemoryNode} (hp : t.IsAllowed p.components)
    (hn : t.node? p.components = some n) (hdir : n.kind = .directory) :
    t.readDir p = .ok ((t.children p.components).filterMap (fun e => entry? e.1 e.2)) := by
  rw [readDir, node_eq_ok_iff.mpr ⟨hp, hn⟩]
  simp [hdir]

theorem readDir_eq_ok {entries : List Entry} (h : t.readDir p = .ok entries) :
    ∃ n, t.IsAllowed p.components ∧ t.node? p.components = some n ∧ n.kind = .directory := by
  unfold readDir at h
  split at h
  · cases h
  · rename_i n hn
    obtain ⟨hp, hn⟩ := node_eq_ok_iff.mp hn
    split at h
    · cases h
    · rename_i hdir
      exact ⟨n, hp, hn, Decidable.not_not.mp hdir⟩

theorem readDir_eq_ok_congr {q : Path} {entries : List Entry} (h : t.readDir p = .ok entries)
    (hq : q.components = p.components) : t.readDir q = .ok entries := by
  obtain ⟨n, hp, hn, hdir⟩ := readDir_eq_ok h
  rw [readDir_of_isDirectory hp hn hdir] at h
  rw [← hq] at hp hn h
  rw [readDir_of_isDirectory hp hn hdir, h]

theorem node?_eq_none_of_readDir {q : Path} (h : t.readDir p = .error (.notFound q)) :
    t.node? p.components = none := by
  cases hn : t.node? p.components with
  | none => rfl
  | some n =>
    by_cases hallowed : t.IsAllowed p.components
    · rw [readDir, node_eq_ok_iff.mpr ⟨hallowed, hn⟩] at h
      dsimp only at h
      split at h <;> cases h
    · have hdenied : t.denied.contains p.components = true := Decidable.not_not.mp hallowed
      rw [readDir, node, checkAccess, if_pos hdenied] at h
      cases h

/-- A listing has an entry for each node one name below, under that name as a text. -/
theorem mem_readDir_iff {entries : List Entry} (h : t.readDir p = .ok entries) {e : Entry} :
    e ∈ entries ↔ ∃ name n, t.node? (p.components ++ [.name name]) = some n ∧
      e = ⟨Utf8.lossy name, n.kind, n.data.length, some n.modified⟩ := by
  obtain ⟨above, hp, habove, hdir⟩ := readDir_eq_ok h
  rw [readDir_of_isDirectory hp habove hdir] at h
  obtain rfl := Except.ok.inj h
  simp only [List.mem_filterMap, mem_children_iff (Option.isSome_iff_exists.mpr ⟨_, habove⟩),
    entry?_eq_some_iff]
  constructor
  · rintro ⟨⟨l, n⟩, ⟨hn, hparent⟩, name, hname, rfl⟩
    obtain ⟨c, -, rfl⟩ := Location.parent?_eq_some_iff.mp hparent
    rw [Location.fileName?_eq_some_iff, List.getLast?_concat] at hname
    obtain rfl := Option.some.inj hname
    exact ⟨name, n, hn, rfl⟩
  · rintro ⟨name, n, hn, rfl⟩
    refine ⟨(p.components ++ [.name name], n), ⟨hn, ?_⟩, name, ?_, rfl⟩
    · exact Location.parent?_eq_some_iff.mpr ⟨.name name, nofun, rfl⟩
    · exact Location.fileName?_eq_some_iff.mpr List.getLast?_concat

/-! ## Operations that may fail

An operation that fails leaves the tree as it was.
-/

def without (t : MemoryTree) (l : Location) : MemoryTree :=
  { t with nodes := t.nodes.filterKeys (fun place => !place.startsWith l) }

def withFile (t : MemoryTree) (l : Location) (data : List UInt8) : MemoryTree :=
  { t with nodes := t.nodes.insert l ⟨.file, t.now, data⟩ }

theorem node?_without (t : MemoryTree) (above l : Location) :
    (t.without above).node? l = if above <+: l then none else t.node? l := by
  rw [node?, without, get?_filterKeys]
  by_cases h : above <+: l
  · simp [Location.startsWith_iff.mpr h, h]
  · have hnot : l.startsWith above = false := by
      rwa [← Bool.not_eq_true, Location.startsWith_iff]
    simp [hnot, h, node?]

theorem without_eq_self {above : Location} (h : ∀ l, above <+: l → t.node? l = none) :
    t.without above = t := by
  have hnodes : t.nodes.filterKeys (fun l => !l.startsWith above) = t.nodes := by
    apply filterKeys_eq_self
    intro l n hn
    have hnot : ¬ above <+: l := fun hbelow => nomatch (h l hbelow).symm.trans hn
    rw [← Location.startsWith_iff] at hnot
    simpa using hnot
  rw [without, hnodes]

theorem node?_withFile (t : MemoryTree) (place : Location) (data : List UInt8) (l : Location) :
    (t.withFile place data).node? l = if l = place then some ⟨.file, t.now, data⟩ else t.node? l :=
  get?_insert _ _ _ _

theorem createDirAll_of_none (hp : t.IsAllowed p.components) (hn : t.node? p.components = none) :
    createDirAll p t = (.ok (), t.put p ⟨.directory, t.now, []⟩) := by
  rw [createDirAll, checkAccess_of_isAllowed hp, hn]

theorem createDirAll_of_not_isAllowed (hp : ¬ t.IsAllowed p.components) :
    ∃ e, createDirAll p t = (.error e, t) := by
  have hdenied : t.denied.contains p.components = true := Decidable.not_not.mp hp
  exact ⟨_, by rw [createDirAll, checkAccess, if_pos hdenied]⟩

/-- Directories are made where nothing is; a directory that is there already is left alone. -/
theorem createDirAll_cases (p : Path) (t : MemoryTree) :
    (∃ e, createDirAll p t = (.error e, t)) ∨
      (t.HasDirectory p.components ∧ createDirAll p t = (.ok (), t)) ∨
      (t.IsAllowed p.components ∧ t.node? p.components = none ∧
        createDirAll p t = (.ok (), t.put p ⟨.directory, t.now, []⟩)) := by
  by_cases hp : t.IsAllowed p.components
  · cases hn : t.node? p.components with
    | none => exact .inr (.inr ⟨hp, rfl, createDirAll_of_none hp hn⟩)
    | some n =>
      rw [createDirAll, checkAccess_of_isAllowed hp, hn]
      by_cases hdir : n.kind = .directory
      · exact .inr (.inl ⟨⟨n, hn, hdir⟩, if_neg (not_not_intro hdir)⟩)
      · exact .inl ⟨_, if_pos hdir⟩
  · exact .inl (createDirAll_of_not_isAllowed hp)

theorem removeDirAll_of_isDirectory (h : t.view.isDirectory p = true) :
    removeDirAll p t = (.ok (), t.without p.components) := by
  obtain ⟨n, hp, hn, hdir⟩ := isDirectory_view_iff.mp h
  rw [removeDirAll, node_eq_ok_iff.mpr ⟨hp, hn⟩]
  exact if_neg (not_not_intro hdir)

theorem removeDirAll_of_not_isDirectory (h : ¬ t.view.isDirectory p = true) :
    ∃ e, removeDirAll p t = (.error e, t) := by
  rw [removeDirAll]
  cases hn : t.node p with
  | error e => exact ⟨e, rfl⟩
  | ok n =>
    obtain ⟨hp, hn⟩ := node_eq_ok_iff.mp hn
    have hdir : n.kind ≠ .directory := fun hdir => h (isDirectory_view_iff.mpr ⟨n, hp, hn, hdir⟩)
    exact ⟨_, if_pos hdir⟩

theorem copyFile_of_hasDirectory {source target : Path} {n : MemoryNode}
    (hn : t.node source = .ok n) (htarget : t.IsAllowed target.components)
    (hparent : t.HasDirectory (target.parent?.getD ⟨[]⟩).components) :
    copyFile source target t = (.ok n.data.length, t.withFile target.components n.data) := by
  obtain ⟨above, habove, hdir⟩ := hparent
  rw [copyFile, hn, checkAccess_of_isAllowed htarget]
  dsimp only
  rw [habove]
  exact if_neg (not_not_intro hdir)

theorem copyFile_cases (source target : Path) (t : MemoryTree) :
    (∃ e, copyFile source target t = (.error e, t)) ∨
      ∃ n, t.node source = .ok n ∧ t.IsAllowed target.components ∧
        t.HasDirectory (target.parent?.getD ⟨[]⟩).components ∧
        copyFile source target t = (.ok n.data.length, t.withFile target.components n.data) := by
  cases hn : t.node source with
  | error e => exact .inl ⟨e, by rw [copyFile, hn]⟩
  | ok n =>
    by_cases htarget : t.IsAllowed target.components
    · by_cases hparent : t.HasDirectory (target.parent?.getD ⟨[]⟩).components
      · exact .inr ⟨n, rfl, htarget, hparent, copyFile_of_hasDirectory hn htarget hparent⟩
      · refine .inl ?_
        rw [copyFile, hn, checkAccess_of_isAllowed htarget]
        dsimp only
        cases habove : t.node? (target.parent?.getD ⟨[]⟩).components with
        | none => exact ⟨_, rfl⟩
        | some above => exact ⟨_, if_pos fun hdir => hparent ⟨above, habove, hdir⟩⟩
    · have hdenied : t.denied.contains target.components = true := Decidable.not_not.mp htarget
      exact .inl ⟨_, by rw [copyFile, hn, checkAccess, if_pos hdenied]⟩

end IncrementalBackup.MemoryTree
