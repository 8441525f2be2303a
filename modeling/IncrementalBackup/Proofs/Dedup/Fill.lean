import IncrementalBackup.Proofs.Dedup.Copies

/-!
# Filling a directory

The directory of a key is removed, made anew and filled with copies. Names are looked for by what a
listing shows of them. If a name is missing in the end the directory is removed again: everything
outside it is then as it was, and inside it there is nothing.
-/

namespace IncrementalBackup

namespace Dedup

open MemoryTree

theorem repeatedName?_eq_none_iff {seen names : List (List UInt8)} :
    repeatedName? seen names = none ↔ names.Nodup ∧ ∀ name ∈ names, name ∉ seen := by
  induction names generalizing seen with
  | nil => simp [repeatedName?]
  | cons name names ih =>
    rw [repeatedName?]
    by_cases hseen : name ∈ seen
    · simp [hseen]
    · rw [if_neg hseen, ih, List.nodup_cons]
      constructor
      · rintro ⟨hnodup, hnot⟩
        refine ⟨⟨fun hmem => hnot name hmem List.mem_cons_self, hnodup⟩, fun other hother => ?_⟩
        rcases List.mem_cons.mp hother with rfl | hother
        · exact hseen
        · exact fun hmem => hnot other hother (List.mem_cons_of_mem name hmem)
      · rintro ⟨⟨hname, hnodup⟩, hnot⟩
        refine ⟨hnodup, fun other hother hmem => ?_⟩
        rcases List.mem_cons.mp hmem with rfl | hmem
        · exact hname hother
        · exact hnot other (List.mem_cons_of_mem name hother) hmem

theorem duplicateName?_eq_none_iff {paths : List Path} :
    duplicateName? paths = none ↔ (paths.filterMap Path.fileName?).Nodup := by
  simp [duplicateName?, repeatedName?_eq_none_iff]

variable {t : MemoryTree} {dir : Path}

theorem mem_fileNames_iff {entries : List Entry} (h : t.readDir dir = .ok entries) {s : String} :
    s ∈ fileNames entries ↔
      ∃ name, t.HasFile (dir.components ++ [.name name]) ∧ Utf8.lossy name = s := by
  simp only [fileNames, List.mem_map, List.mem_filter, mem_readDir_iff h, beq_iff_eq]
  constructor
  · rintro ⟨e, ⟨⟨name, n, hn, rfl⟩, hkind⟩, rfl⟩
    exact ⟨name, ⟨n, hn, hkind⟩, rfl⟩
  · rintro ⟨name, ⟨n, hn, hkind⟩, rfl⟩
    exact ⟨_, ⟨⟨name, n, hn, rfl⟩, hkind⟩, rfl⟩

theorem missingNames_eq_nil_iff (hdir : t.view.isDirectory dir = true) {paths : List Path} :
    missingNames t.view dir paths = [] ↔ ∀ p ∈ paths, ∃ name,
      t.HasFile (dir.components ++ [.name name]) ∧ Utf8.lossy name = shownName p := by
  obtain ⟨n, hallowed, hn, hkind⟩ := isDirectory_view_iff.mp hdir
  have hlist := readDir_of_isDirectory hallowed hn hkind
  have hview : t.view.readDir dir = t.readDir dir := rfl
  rw [missingNames, hview, hlist, List.filter_eq_nil_iff, List.forall_mem_map]
  apply forall_congr'
  intro p
  apply forall_congr'
  intro hp
  rw [← mem_fileNames_iff hlist]
  simp

theorem shownName_of_fileName? {p : Path} {name : List UInt8} (h : p.fileName? = some name) :
    shownName p = Utf8.lossy name := by
  rw [shownName, h]

end Dedup

namespace DedupStore

open MemoryTree Dedup

/-! ## Directories of the store -/

theorem packageDir_eq_ok {s : DedupStore} {package : String} {dir : Path}
    (h : s.packageDir package = .ok dir) :
    ∃ name, (Path.ofString package).components = [.name name] ∧
      dir.components = s.root.components ++ [.name name] := by
  unfold packageDir at h
  split at h
  · rename_i hname
    obtain rfl := Except.ok.inj h
    unfold isPackageName at hname
    split at hname
    · rename_i name hcomponents
      exact ⟨name, hcomponents, Path.components_join_of_eq_name hcomponents⟩
    · cases hname
  · cases h

/-- The directories of two packages are one place exactly when the names have one component. -/
theorem components_packageDir_eq_iff {s : DedupStore} {package other : String} {dir otherDir : Path}
    (hdir : s.packageDir package = .ok dir) (hother : s.packageDir other = .ok otherDir) :
    dir.components = otherDir.components ↔
      (Path.ofString package).components = (Path.ofString other).components := by
  obtain ⟨name, hname, hcomponents⟩ := packageDir_eq_ok hdir
  obtain ⟨otherName, hotherName, hotherComponents⟩ := packageDir_eq_ok hother
  rw [hname, hotherName, hcomponents, hotherComponents, List.append_right_inj]

/-- What lies below an entry of one package and an entry of another lies below one entry only. -/
theorem eq_of_below_packageDir {s : DedupStore} {package other : String} {dir otherDir : Path}
    {name otherName : List UInt8} {l : Location} (hdir : s.packageDir package = .ok dir)
    (hother : s.packageDir other = .ok otherDir) (h : dir.components ++ [.name name] <+: l)
    (hotherBelow : otherDir.components ++ [.name otherName] <+: l) :
    dir.components = otherDir.components ∧ name = otherName := by
  obtain ⟨_, -, hcomponents⟩ := packageDir_eq_ok hdir
  obtain ⟨_, -, hotherComponents⟩ := packageDir_eq_ok hother
  have heq : dir.components ++ [.name name] = otherDir.components ++ [.name otherName] := by
    -- Both lie two names below the root of the store.
    refine (List.prefix_of_prefix_length_le h hotherBelow ?_).eq_of_length ?_
    all_goals simp [hcomponents, hotherComponents]
  obtain ⟨habove, hlast⟩ := List.append_inj' heq rfl
  exact ⟨habove, by simpa using hlast⟩

theorem dedupDir_eq_ok_iff {s : DedupStore} {package : String} {key : DedupKey} {dir : Path} :
    s.dedupDir package key = .ok dir ↔
      ∃ packageDir, s.packageDir package = .ok packageDir ∧ dir = packageDir.join key.path := by
  rw [dedupDir]
  cases s.packageDir package <;> simp [Except.map, eq_comm]

theorem components_dedupDir_ne_nil {s : DedupStore} {package : String} {key : DedupKey} {dir : Path}
    (h : s.dedupDir package key = .ok dir) : dir.components ≠ [] := by
  obtain ⟨packageDir, hpackage, rfl⟩ := dedupDir_eq_ok_iff.mp h
  obtain ⟨name, -, hcomponents⟩ := packageDir_eq_ok hpackage
  have hne : packageDir.components ≠ [] := by simp [hcomponents]
  by_cases habsolute : key.path.isAbsolute = true
  · rw [Path.join_of_isAbsolute habsolute]
    obtain ⟨rest, hrest⟩ := Path.components_of_isAbsolute habsolute
    simp [hrest]
  · rw [Path.components_join (fun hbytes => hne (Path.components_eq_nil_iff.mpr hbytes)) habsolute]
    simp [hne]

variable {t : MemoryTree} {dir : Path} {key : DedupKey} {paths : List Path}

/-! ## Making a directory anew -/

/-- A tree in which a directory has been made anew, with everything else kept. -/
structure IsRenewed (t : MemoryTree) (dir : Path) (renewed : MemoryTree) : Prop where
  made : ∃ n, renewed.node? dir.components = some n ∧ n.kind = .directory
  empty : ∀ l, dir.components <+: l → l ≠ dir.components → renewed.node? l = none
  kept : ∀ l n, ¬ dir.components <+: l → t.node? l = some n → renewed.node? l = some n
  added : ∀ l, ¬ dir.components <+: l → l ∉ dir.components.ancestors →
    renewed.node? l = t.node? l
  allowed : ∀ l, renewed.IsAllowed l ↔ t.IsAllowed l

/-- The tree in which a directory is removed with everything below it and made again. -/
def renewed (t : MemoryTree) (dir : Path) : MemoryTree :=
  (t.without dir.components).put dir ⟨.directory, t.now, []⟩

theorem node?_renewed (t : MemoryTree) (dir : Path) (l : Location) :
    (renewed t dir).node? l =
      if l = dir.components then some ⟨.directory, t.now, []⟩
      else if dir.components <+: l then none
      else if l ∈ dir.components.ancestors then some ((t.node? l).getD ⟨.directory, .epoch, []⟩)
      else t.node? l := by
  rw [renewed, node?_put, node?_without]
  split
  · rfl
  · by_cases hbelow : dir.components <+: l
    · simp [hbelow, Location.not_mem_ancestors_of_prefix hbelow]
    · simp [hbelow]

theorem isRenewed_renewed (t : MemoryTree) (dir : Path) : IsRenewed t dir (renewed t dir) := by
  constructor
  · exact ⟨_, by rw [node?_renewed, if_pos rfl], rfl⟩
  · intro l hl hne
    rw [node?_renewed, if_neg hne, if_pos hl]
  · intro l n hl hn
    have hne : l ≠ dir.components := fun heq => hl (heq ▸ List.prefix_rfl)
    rw [node?_renewed, if_neg hne, if_neg hl, hn]
    simp
  · intro l hl hmem
    have hne : l ≠ dir.components := fun heq => hl (heq ▸ List.prefix_rfl)
    rw [node?_renewed, if_neg hne, if_neg hl, if_neg hmem]
  · exact fun _ => Iff.rfl

def IsCopiedAnew (t : MemoryTree) (dir p : Path) : Prop :=
  t.view.contains p = true ∧ (dir.components <+: p.components → p.components = dir.components) ∧
    ∃ name, p.fileName? = some name ∧ t.IsAllowed (dir.components ++ [.name name])

/-! ## Filling a directory -/

theorem fill_of_made {cleared made : MemoryTree} (hclear : clear dir t = (.ok (), cleared))
    (hmake : createDirAll dir cleared = (.ok (), made)) :
    fill key dir paths t =
      match missingNames (paths.foldl (copied dir) made).view dir paths with
      | [] => (.ok ⟨key, dir, false, (copyAll dir paths made).1⟩, paths.foldl (copied dir) made)
      | missing => (.error (.incomplete key missing),
          (removeDirAll dir (paths.foldl (copied dir) made)).2) := by
  have hstorage : Storage.createDirAll dir cleared = (.ok (), made) := hmake
  rw [fill, hclear]
  dsimp only
  rw [hstorage, ← copyAll_snd]
  rfl

theorem isDirectory_foldl_copied {made : MemoryTree} (hrenewed : IsRenewed t dir made)
    (hallowed : t.IsAllowed dir.components) (paths : List Path) :
    (paths.foldl (copied dir) made).view.isDirectory dir = true := by
  obtain ⟨d, hd, hkind⟩ := hrenewed.made
  refine isDirectory_view_iff.mpr ⟨d, ?_, ?_, hkind⟩
  · rwa [isAllowed_foldl_copied, hrenewed.allowed]
  · rw [node?_foldl_copied hd hkind paths (by simp), hd]

theorem clear_of_not_contains (h : ¬ t.view.contains dir = true) : clear dir t = (.ok (), t) :=
  if_neg h

theorem clear_of_contains (h : t.view.contains dir = true) : clear dir t = removeDirAll dir t :=
  if_pos h

/-- A directory can be made anew where no access is denied and nothing but a directory stands. -/
structure CanRenew (t : MemoryTree) (dir : Path) : Prop where
  allowed : t.IsAllowed dir.components
  directory : ∀ n, t.node? dir.components = some n → n.kind = .directory

theorem canRenew_of_isDirectory (h : t.view.isDirectory dir = true) : CanRenew t dir := by
  obtain ⟨d, hallowed, hd, hkind⟩ := isDirectory_view_iff.mp h
  exact ⟨hallowed, fun n hn => Option.some.inj (hd.symm.trans hn) ▸ hkind⟩

theorem fill_of_not_canRenew (key : DedupKey) (paths : List Path) (h : ¬ CanRenew t dir) :
    ∃ e, fill key dir paths t = (.error (.access e), t) := by
  by_cases hallowed : t.IsAllowed dir.components
  · obtain ⟨n, hn, hkind⟩ : ∃ n, t.node? dir.components = some n ∧ n.kind ≠ .directory := by
      by_contra hnone
      exact h ⟨hallowed, fun n hn => by_contra fun hkind => hnone ⟨n, hn, hkind⟩⟩
    have hnot : ¬ t.view.isDirectory dir = true := by
      intro h
      obtain ⟨m, -, hm, hdir⟩ := isDirectory_view_iff.mp h
      rw [hn] at hm
      exact hkind (Option.some.inj hm ▸ hdir)
    obtain ⟨e, he⟩ := removeDirAll_of_not_isDirectory hnot
    have hcontains := contains_view_iff.mpr ⟨n, hallowed, hn⟩
    exact ⟨e, by rw [fill, clear_of_contains hcontains, he]⟩
  · have hnot : ¬ t.view.contains dir = true := by
      intro h
      obtain ⟨n, h, -⟩ := contains_view_iff.mp h
      exact hallowed h
    obtain ⟨e, he⟩ := createDirAll_of_not_isAllowed hallowed
    have hstorage : Storage.createDirAll dir t = (.error e, t) := he
    refine ⟨e, ?_⟩
    rw [fill, clear_of_not_contains hnot]
    dsimp only
    rw [hstorage]

theorem clear_createDirAll (hwf : t.WellFormed) (hne : dir.components ≠ [])
    (h : CanRenew t dir) :
    ∃ cleared, clear dir t = (.ok (), cleared) ∧
      createDirAll dir cleared = (.ok (), renewed t dir) := by
  cases hd : t.node? dir.components with
  | some n =>
    have hdir := isDirectory_view_iff.mpr ⟨n, h.allowed, hd, h.directory n hd⟩
    have hnone : (t.without dir.components).node? dir.components = none := by
      rw [node?_without, if_pos List.prefix_rfl]
    exact ⟨_, (clear_of_contains (contains_view_iff.mpr ⟨n, h.allowed, hd⟩)).trans
      (removeDirAll_of_isDirectory hdir), createDirAll_of_none h.allowed hnone⟩
  | none =>
    have hcontains : ¬ t.view.contains dir = true := by
      intro hcontains
      obtain ⟨n, -, hn⟩ := contains_view_iff.mp hcontains
      rw [hd] at hn
      cases hn
    -- There is nothing below a place without a node, so there is nothing to remove.
    have hempty : ∀ l, dir.components <+: l → t.node? l = none := by
      intro l hl
      rw [Option.eq_none_iff_forall_ne_some]
      intro n hn
      by_cases hself : dir.components = l
      · rw [← hself, hd] at hn
        cases hn
      · obtain ⟨m, hm⟩ := hwf.above hn _ (Location.mem_ancestors_iff.mpr ⟨hne, hl, hself⟩)
        rw [hd] at hm
        cases hm
    refine ⟨t, clear_of_not_contains hcontains, ?_⟩
    rw [renewed, without_eq_self hempty]
    exact createDirAll_of_none h.allowed hd

/-- The tree in which a directory is made anew and the files are copied into it. -/
def filled (t : MemoryTree) (dir : Path) (paths : List Path) : MemoryTree :=
  paths.foldl (copied dir) (renewed t dir)

theorem fill_of_canRenew (key : DedupKey) (paths : List Path) (hwf : t.WellFormed)
    (hne : dir.components ≠ []) (h : CanRenew t dir) :
    fill key dir paths t =
      match missingNames (filled t dir paths).view dir paths with
      | [] => (.ok ⟨key, dir, false, (copyAll dir paths (renewed t dir)).1⟩, filled t dir paths)
      | missing =>
        (.error (.incomplete key missing), (filled t dir paths).without dir.components) := by
  obtain ⟨cleared, hclear, hmake⟩ := clear_createDirAll hwf hne h
  have hdir := isDirectory_foldl_copied (isRenewed_renewed t dir) h.allowed paths
  rw [fill_of_made hclear hmake, removeDirAll_of_isDirectory hdir]
  rfl

end DedupStore

end IncrementalBackup
