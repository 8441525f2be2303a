import IncrementalBackup.Proofs.Dedup.Fill
import IncrementalBackup.Proofs.Path.Names

/-!
# What pruning removes

Pruning removes the directories of a package whose names no record of the package holds. A package and
its directories are found in the tree by the components that their names have as paths, and in the
records by the texts of the names. So a directory that a record points at is lost exactly when no record
has both texts, that of the package as it is given and the name of the directory: every record that
points at it spells one of them otherwise, such as `x/` for the package or `k/` for the directory.
-/

namespace IncrementalBackup

namespace DedupStore

open MemoryTree Dedup

variable {s : DedupStore} {package : String} {records : List BackupRecord} {t : MemoryTree}
  {packageDir : Path} {keys : List DedupKey}

/-! ## Removing directories one after the other -/

theorem isDirectory_without_iff {place : Location} {p : Path} :
    (t.without place).view.isDirectory p = true ↔
      t.view.isDirectory p = true ∧ ¬ place <+: p.components := by
  rw [isDirectory_view_iff, isDirectory_view_iff, node?_without]
  by_cases hbelow : place <+: p.components
  · simp [hbelow]
  · simp only [hbelow, if_false, not_false_eq_true, and_true]
    exact Iff.rfl

theorem removeAll_cons_snd (dir : Path) (key : DedupKey) (keys : List DedupKey) (t : MemoryTree) :
    (removeAll dir (key :: keys) t).2 =
      (removeAll dir keys (removeDirAll (dir.join key.path) t).2).2 := by
  rw [removeAll]
  change _ = (removeAll dir keys (Storage.removeDirAll (dir.join key.path) t).2).2
  rcases Storage.removeDirAll (dir.join key.path) t with ⟨_ | ⟨⟩, fs⟩ <;> rfl

/-- What is left is what lies below none of the directories that can be removed. -/
theorem node?_removeAll {l : Location} {n : MemoryNode} (dir : Path) (keys : List DedupKey)
    (t : MemoryTree) :
    (removeAll dir keys t).2.node? l = some n ↔ t.node? l = some n ∧
      ∀ key ∈ keys, t.view.isDirectory (dir.join key.path) = true →
        ¬ (dir.join key.path).components <+: l := by
  induction keys generalizing t with
  | nil => simp [removeAll]
  | cons key keys ih =>
    rw [removeAll_cons_snd, ih, List.forall_mem_cons]
    by_cases hdir : t.view.isDirectory (dir.join key.path) = true
    · rw [removeDirAll_of_isDirectory hdir, node?_without]
      dsimp only
      by_cases hbelow : (dir.join key.path).components <+: l
      · simp [hdir, hbelow]
      · rw [if_neg hbelow]
        simp only [hdir, hbelow, not_false_eq_true, forall_const, true_and]
        refine and_congr_right fun _ => forall_congr' fun other => forall_congr' fun _ => ?_
        rw [isDirectory_without_iff]
        constructor
        · intro h hother hle
          exact h ⟨hother, fun hkey => hbelow (hkey.trans hle)⟩ hle
        · intro h hother
          exact h hother.1
    · obtain ⟨e, he⟩ := removeDirAll_of_not_isDirectory hdir
      simp [he, hdir]

/-! ## The directories of a package -/

theorem mem_dedupKeys_iff {packageDir : Path} (hpackage : s.packageDir package = .ok packageDir)
    (hdir : t.view.isDirectory packageDir = true) :
    ∃ keys, s.dedupKeys package t.view = .ok keys ∧ ∀ key, key ∈ keys ↔
      ∃ name n, t.node? (packageDir.components ++ [.name name]) = some n ∧ n.kind = .directory ∧
        key = ⟨Utf8.lossy name⟩ := by
  obtain ⟨d, hallowed, hd, hkind⟩ := isDirectory_view_iff.mp hdir
  have hlist := readDir_of_isDirectory hallowed hd hkind
  have hview : t.view.readDir packageDir = _ := hlist
  rw [dedupKeys, hpackage]
  dsimp only
  rw [hview]
  refine ⟨_, rfl, fun key => ?_⟩
  rw [List.mem_mergeSort, List.mem_map]
  simp only [List.mem_filter, mem_readDir_iff hlist, beq_iff_eq]
  constructor
  · rintro ⟨e, ⟨⟨name, n, hn, rfl⟩, hdirectory⟩, rfl⟩
    exact ⟨name, n, hn, hdirectory, rfl⟩
  · rintro ⟨name, n, hn, hdirectory, rfl⟩
    exact ⟨_, ⟨⟨name, n, hn, rfl⟩, hdirectory⟩, rfl⟩

theorem countReferences_own_iff {identifier : String} :
    (countReferences (records.filter fun r => r.packageName == package) identifier == 0) = true ↔
      ∀ r ∈ records, r.packageName = package → r.apkLocation ≠ some identifier := by
  simp [countReferences, List.countP_eq_zero]

/-! ## Pruning -/

theorem pruneUnreferenced_of_unreferenced (hpackage : s.packageDir package = .ok packageDir)
    (hkeys : s.unreferenced package records t.view = .ok keys) :
    s.pruneUnreferenced package records t =
      (.ok (removeAll packageDir keys t).1, (removeAll packageDir keys t).2) := by
  have hview : Storage.view t = t.view := rfl
  rw [pruneUnreferenced, hpackage]
  dsimp only
  rw [hview, hkeys]

theorem pruneUnreferenced_ok {report : PruneReport} {after : MemoryTree}
    (hpackage : s.packageDir package = .ok packageDir)
    (h : s.pruneUnreferenced package records t = (.ok report, after)) :
    ∃ keys, s.unreferenced package records t.view = .ok keys ∧
      (removeAll packageDir keys t).1 = report ∧ (removeAll packageDir keys t).2 = after := by
  have hview : Storage.view t = t.view := rfl
  cases hkeys : s.unreferenced package records t.view with
  | error e =>
    rw [pruneUnreferenced, hpackage] at h
    dsimp only at h
    rw [hview, hkeys] at h
    cases h
  | ok keys =>
    rw [pruneUnreferenced_of_unreferenced hpackage hkeys] at h
    obtain ⟨hreport, hafter⟩ := Prod.mk.inj h
    exact ⟨keys, rfl, Except.ok.inj hreport, hafter⟩

theorem unreferenced_ok (hpackage : s.packageDir package = .ok packageDir)
    (h : s.unreferenced package records t.view = .ok keys) :
    t.view.isDirectory packageDir = true ∨ (t.node? packageDir.components = none ∧ keys = []) := by
  have hview : t.view.readDir packageDir = t.readDir packageDir := rfl
  cases hlist : t.readDir packageDir with
  | ok entries =>
    obtain ⟨n, hallowed, hn, hkind⟩ := readDir_eq_ok hlist
    exact .inl (isDirectory_view_iff.mpr ⟨n, hallowed, hn, hkind⟩)
  | error e =>
    rw [unreferenced, dedupKeys, hpackage] at h
    dsimp only at h
    rw [hview, hlist] at h
    cases e with
    | notFound p => exact .inr ⟨node?_eq_none_of_readDir hlist, (Except.ok.inj h).symm⟩
    | notADirectory p => cases h
    | storage failure => cases h

/-- A prune that fails has done nothing. -/
theorem pruneUnreferenced_error {e : DedupError} {after : MemoryTree}
    (h : s.pruneUnreferenced package records t = (.error e, after)) : after = t := by
  unfold pruneUnreferenced at h
  split at h
  · exact (congrArg Prod.snd h).symm
  · split at h
    · exact (congrArg Prod.snd h).symm
    · cases h

theorem pruneUnreferenced_of_not_isDirectory
    (h : ∀ packageDir, s.packageDir package = .ok packageDir →
      ¬ t.view.isDirectory packageDir = true) :
    (s.pruneUnreferenced package records t).2 = t := by
  rcases hresult : s.pruneUnreferenced package records t with ⟨e | report, after⟩
  · exact pruneUnreferenced_error hresult
  · cases hpackage : s.packageDir package with
    | error e =>
      rw [pruneUnreferenced, hpackage] at hresult
      cases hresult
    | ok packageDir =>
      obtain ⟨keys, hkeys, -, rfl⟩ := pruneUnreferenced_ok hpackage hresult
      rcases unreferenced_ok hpackage hkeys with hdir | ⟨-, rfl⟩
      · exact absurd hdir (h packageDir hpackage)
      · rfl

/-- The name of a directory of the package, if no record of a package written so holds it. -/
def IsUnreferenced (records : List BackupRecord) (package : String) (name : List UInt8) : Prop :=
  ∀ r ∈ records, r.packageName = package → r.apkLocation ≠ some (Utf8.lossy name)

theorem node?_pruneUnreferenced (hwf : t.WellFormed) {packageDir : Path}
    (hpackage : s.packageDir package = .ok packageDir)
    (hdir : t.view.isDirectory packageDir = true) {l : Location} {n : MemoryNode} :
    (s.pruneUnreferenced package records t).2.node? l = some n ↔ t.node? l = some n ∧
      ∀ name d, t.node? (packageDir.components ++ [.name name]) = some d → d.kind = .directory →
        IsUnreferenced records package name →
        t.view.isDirectory (packageDir.join (.ofString (Utf8.lossy name))) = true →
        ¬ packageDir.components ++ [.name (Utf8.encode (Utf8.lossy name))] <+: l := by
  obtain ⟨keys, hkeys, hmem⟩ := mem_dedupKeys_iff hpackage hdir
  have hunreferenced : s.unreferenced package records t.view = .ok (keys.filter fun key =>
      countReferences (records.filter fun r => r.packageName == package) key.text == 0) := by
    rw [unreferenced, hkeys]
    rfl
  rw [pruneUnreferenced_of_unreferenced hpackage hunreferenced, node?_removeAll]
  apply and_congr_right
  rintro -
  constructor
  · intro h name d hd hkind hname hdirectory
    have hplain : Path.IsPlain name := (hwf.place hd).names name (by simp)
    rw [← Path.components_join_of_eq_name (Path.components_ofString_lossy hplain)]
    exact h ⟨Utf8.lossy name⟩ (List.mem_filter.mpr ⟨(hmem _).mpr ⟨name, d, hd, hkind, rfl⟩,
      countReferences_own_iff.mpr hname⟩) hdirectory
  · intro h key hkey hdirectory
    obtain ⟨hkey, hcount⟩ := List.mem_filter.mp hkey
    obtain ⟨name, d, hd, hkind, rfl⟩ := (hmem _).mp hkey
    have hplain : Path.IsPlain name := (hwf.place hd).names name (by simp)
    have hcomponents : (packageDir.join (DedupKey.path ⟨Utf8.lossy name⟩)).components =
        packageDir.components ++ [.name (Utf8.encode (Utf8.lossy name))] :=
      Path.components_join_of_eq_name (Path.components_ofString_lossy hplain)
    rw [hcomponents]
    exact h name d hd hkind (countReferences_own_iff.mp hcount) hdirectory

/-- Where pruning has changed the tree, a directory above had a name that no record holds. -/
theorem exists_unreferenced_of_pruned (hwf : t.WellFormed) {l : Location}
    (h : (s.pruneUnreferenced package records t).2.node? l ≠ t.node? l) :
    ∃ packageDir name d, s.packageDir package = .ok packageDir ∧
      t.view.isDirectory packageDir = true ∧
      t.node? (packageDir.components ++ [.name name]) = some d ∧
      IsUnreferenced records package name ∧
      t.view.isDirectory (packageDir.join (.ofString (Utf8.lossy name))) = true ∧
      packageDir.components ++ [.name (Utf8.encode (Utf8.lossy name))] <+: l := by
  by_contra hnone
  refine h ?_
  by_cases hlisted : ∃ packageDir, s.packageDir package = .ok packageDir ∧
      t.view.isDirectory packageDir = true
  · obtain ⟨packageDir, hpackage, hlist⟩ := hlisted
    refine Option.ext fun n => ?_
    rw [node?_pruneUnreferenced hwf hpackage hlist]
    exact and_iff_left fun name d hd _ hunreferenced hdirectory hbelow =>
      hnone ⟨packageDir, name, d, hpackage, hlist, hd, hunreferenced, hdirectory, hbelow⟩
  · rw [pruneUnreferenced_of_not_isDirectory fun packageDir hpackage hlist =>
      hlisted ⟨packageDir, hpackage, hlist⟩]

/-- Pruning leaves the directory that a record points at, with everything in it, unless the package
that is given has the component of the one in the record, no record of a package written as the given
one holds the very name of the directory, and both directories can be looked at. -/
theorem pruneUnreferenced_keeps_referenced_iff (s : DedupStore) (package : String)
    (records : List BackupRecord) (t : MemoryTree) (hreach : t.Reachable) :
    ∀ r ∈ records, ∀ k name dir d, r.apkLocation = some k →
      (Path.ofString k).components = [.name name] → s.dedupDir r.packageName ⟨k⟩ = .ok dir →
      t.node? dir.components = some d → d.kind = .directory →
      ((∀ l, dir.components <+: l →
          (s.pruneUnreferenced package records t).2.node? l = t.node? l) ↔
        ¬ ((Path.ofString package).components = (Path.ofString r.packageName).components ∧
          IsUnreferenced records package name ∧
          (∃ packageDir, s.packageDir package = .ok packageDir ∧
            t.view.isDirectory packageDir = true) ∧
          t.view.isDirectory dir = true)) := by
  intro r _ k name dir d _ hname hdir hd hkind
  have hwf := hreach.wellFormed
  obtain ⟨recordDir, hrecord, rfl⟩ := dedupDir_eq_ok_iff.mp hdir
  have hplace : (recordDir.join (DedupKey.path ⟨k⟩)).components =
      recordDir.components ++ [.name name] := Path.components_join_of_eq_name hname
  have hshown : Utf8.encode (Utf8.lossy name) = name :=
    Utf8.encode_lossy_of_isValid (Path.isValid_of_name_mem_components (s := k) (by simp [hname]))
  have hplain : Path.IsPlain name := Path.isPlain_of_name_mem_components (p := .ofString k)
    (by simp [hname])
  -- The prune looks for the directory below the package that it is given, under its shown name.
  have hlooked : ∀ packageDir : Path, packageDir.components = recordDir.components →
      (packageDir.join (.ofString (Utf8.lossy name))).components =
        (recordDir.join (DedupKey.path ⟨k⟩)).components := by
    intro packageDir hsame
    rw [Path.components_join_of_eq_name (Path.components_ofString_lossy hplain), hplace, hshown,
      hsame]
  rw [hplace] at hd ⊢
  constructor
  · rintro hkeeps ⟨hnames, hunreferenced, ⟨packageDir, hpackage, hlisted⟩, hdirectory⟩
    have hsame := (components_packageDir_eq_iff hpackage hrecord).mpr hnames
    have hkept := (hkeeps _ List.prefix_rfl).trans hd
    refine ((node?_pruneUnreferenced hwf hpackage hlisted).mp hkept).2 name d (hsame ▸ hd) hkind
      hunreferenced ((isDirectory_view_congr (hlooked _ hsame)).mpr hdirectory) ?_
    rw [hshown]
    exact hsame ▸ List.prefix_rfl
  · intro hnot l hl
    by_contra hchanged
    obtain ⟨packageDir, other, d', hpackage, hlisted, hd', hunreferenced, hdirectory, hbelow⟩ :=
      exists_unreferenced_of_pruned hwf hchanged
    obtain ⟨hsame, hother⟩ := eq_of_below_packageDir hpackage hrecord hbelow hl
    have hlossy : Utf8.lossy other = Utf8.lossy name :=
      Utf8.encode_injective (hother.trans hshown.symm)
    rw [hlossy] at hdirectory
    refine hnot ⟨(components_packageDir_eq_iff hpackage hrecord).mp hsame, ?_,
      ⟨packageDir, hpackage, hlisted⟩, (isDirectory_view_congr (hlooked _ hsame)).mp hdirectory⟩
    rw [IsUnreferenced, ← hlossy]
    exact hunreferenced

/-- A package with one stored directory, and the record that points at it. -/
def storedKey : MemoryTree :=
  (MemoryTree.empty ⟨0⟩).addFile (.ofString "/s/x/k/a") [1] ⟨1⟩

def keyStore : DedupStore := ⟨.ofString "/s", .default⟩

def keyRecord : BackupRecord := ⟨"x", "b", ⟨0, 0⟩, none, 1, some "k"⟩

theorem reachable_storedKey : storedKey.Reachable :=
  (MemoryTree.Reachable.empty ⟨0⟩).step (.addFile _ _ _)

/-- A separator behind the name of the package leaves its directory the same, but no record has it. -/
theorem pruneUnreferenced_loses_referenced :
    storedKey.Reachable ∧ keyStore.packageDir "x/" = .ok (.ofString "/s/x/") ∧
      keyStore.packageDir keyRecord.packageName = .ok (.ofString "/s/x") ∧
      keyStore.dedupDir keyRecord.packageName ⟨"k"⟩ = .ok (.ofString "/s/x/k") ∧
      storedKey.view.isDirectory (.ofString "/s/x/k") = true ∧
      storedKey.node? (Path.ofString "/s/x/k/a").components = some ⟨.file, ⟨1⟩, [1]⟩ ∧
      (keyStore.pruneUnreferenced "x/" [keyRecord] storedKey).2.node?
        (Path.ofString "/s/x/k/a").components = none := by
  refine ⟨reachable_storedKey, by decide, by decide, by decide, by decide, by decide, ?_⟩
  rw [Option.eq_none_iff_forall_ne_some]
  intro n hn
  have hpackage : keyStore.packageDir "x/" = .ok (.ofString "/s/x/") := by decide
  have hkept := ((node?_pruneUnreferenced reachable_storedKey.wellFormed hpackage
    (by decide)).mp hn).2
  refine hkept (Utf8.encode "k") ⟨.directory, .epoch, []⟩ (by decide) rfl ?_ (by decide) (by decide)
  intro r hr hpackage
  obtain rfl := List.mem_singleton.mp hr
  exact absurd hpackage (by decide)

theorem pruneUnreferenced_keeps_storedKey :
    storedKey.Reachable ∧ keyRecord.apkLocation = some "k" ∧
      ∀ l, (Path.ofString "/s/x/k").components <+: l →
        (keyStore.pruneUnreferenced "x" [keyRecord] storedKey).2.node? l = storedKey.node? l := by
  refine ⟨reachable_storedKey, rfl, ?_⟩
  refine (pruneUnreferenced_keeps_referenced_iff keyStore "x" [keyRecord] storedKey
    reachable_storedKey keyRecord List.mem_cons_self "k" (Utf8.encode "k") (.ofString "/s/x/k")
    ⟨.directory, .epoch, []⟩ rfl (by decide) (by decide) (by decide) rfl).mpr ?_
  rintro ⟨-, hunreferenced, -⟩
  exact hunreferenced keyRecord List.mem_cons_self rfl (by decide)

end DedupStore

end IncrementalBackup
