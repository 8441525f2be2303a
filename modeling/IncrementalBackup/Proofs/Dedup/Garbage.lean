import IncrementalBackup.Proofs.Dedup.KeyOrder
import IncrementalBackup.Proofs.Dedup.Prune

/-!
# What pruning collects

Pruning removes the directories of a package that no record points at, except where access is denied;
removing one does not touch another. So if the names in the package are texts, the report divides the
keys that were found before, and pruning again finds those that could not be removed.
-/

namespace IncrementalBackup

namespace DedupStore

open MemoryTree Dedup

variable {s : DedupStore} {package : String} {records : List BackupRecord} {t : MemoryTree}
  {packageDir : Path} {keys : List DedupKey} {key : DedupKey}

/-! ## Garbage -/

def keyPlace (packageDir : Path) (key : DedupKey) : Location :=
  packageDir.components ++ [.name (Utf8.encode key.text)]

theorem eq_of_prefix_keyPlace {other : DedupKey}
    (h : keyPlace packageDir key <+: keyPlace packageDir other) : key = other := by
  have heq := h.eq_of_length (by simp [keyPlace])
  have hbytes : Utf8.encode key.text = Utf8.encode other.text := by simpa [keyPlace] using heq
  cases key
  cases other
  exact congrArg DedupKey.mk (Utf8.encode_injective hbytes)

/-- A directory of the package that no record of the package points at. -/
def IsGarbage (package : String) (records : List BackupRecord) (packageDir : Path) (t : MemoryTree)
    (key : DedupKey) : Prop :=
  t.HasDirectory (keyPlace packageDir key) ∧
    ∀ r ∈ records, r.packageName = package → r.apkLocation ≠ some key.text

theorem IsGarbage.components_join (hwf : t.WellFormed)
    (h : IsGarbage package records packageDir t key) :
    (packageDir.join key.path).components = keyPlace packageDir key := by
  obtain ⟨⟨n, hn, -⟩, -⟩ := h
  have hplain : Path.IsPlain (Utf8.encode key.text) :=
    (hwf.place hn).names _ (List.mem_append_right _ (List.mem_singleton_self _))
  exact Path.components_join_of_isPlain packageDir hplain

/-- The keys without references are the names of the directories that are garbage, in order. -/
theorem unreferenced_of_isDirectory (records : List BackupRecord)
    (hpackage : s.packageDir package = .ok packageDir) (hdir : t.view.isDirectory packageDir = true)
    (htext : t.HasTextNamesIn packageDir.components) :
    ∃ keys, s.unreferenced package records t.view = .ok keys ∧ DedupKey.AreSorted keys ∧
      ∀ key, key ∈ keys ↔ IsGarbage package records packageDir t key := by
  obtain ⟨found, hfound, hmem⟩ := mem_dedupKeys_iff hpackage hdir
  have hsorted := areSorted_dedupKeys hpackage htext hfound
  refine ⟨found.filter _, by rw [unreferenced, hfound]; rfl, hsorted.filter _, ?_⟩
  intro key
  rw [List.mem_filter, hmem, countReferences_own_iff, IsGarbage]
  apply and_congr_left
  rintro -
  constructor
  · rintro ⟨name, n, hn, hkind, rfl⟩
    refine ⟨n, ?_, hkind⟩
    rwa [keyPlace, Utf8.encode_lossy_of_isValid (htext name n hn)]
  · rintro ⟨n, hn, hkind⟩
    exact ⟨Utf8.encode key.text, n, hn, hkind, by rw [Utf8.lossy_encode]⟩

/-! ## Removing -/

theorem reachable_removeAll (h : t.Reachable) (dir : Path) (keys : List DedupKey) :
    (removeAll dir keys t).2.Reachable := by
  induction keys generalizing t with
  | nil => exact h
  | cons key keys ih =>
    rw [removeAll_cons_snd]
    exact ih (h.step (.removeDirAll _))

theorem isAllowed_removeDirAll (p : Path) (t : MemoryTree) (l : Location) :
    (removeDirAll p t).2.IsAllowed l ↔ t.IsAllowed l := by
  by_cases hdir : t.view.isDirectory p = true
  · rw [removeDirAll_of_isDirectory hdir]
    exact Iff.rfl
  · obtain ⟨e, he⟩ := removeDirAll_of_not_isDirectory hdir
    rw [he]

theorem isAllowed_removeAll (dir : Path) (keys : List DedupKey) (t : MemoryTree) (l : Location) :
    (removeAll dir keys t).2.IsAllowed l ↔ t.IsAllowed l := by
  induction keys generalizing t with
  | nil => exact Iff.rfl
  | cons key keys ih => rw [removeAll_cons_snd, ih, isAllowed_removeDirAll]

/-- The report divides the keys by what could be removed at first: the directories of different keys
lie beside each other. -/
theorem removeAll_fst (hnodup : keys.Nodup)
    (hplace : ∀ key ∈ keys, (packageDir.join key.path).components = keyPlace packageDir key) :
    (removeAll packageDir keys t).1 =
      ⟨keys.filter fun key => t.view.isDirectory (packageDir.join key.path),
        keys.filter fun key => !t.view.isDirectory (packageDir.join key.path)⟩ := by
  induction keys generalizing t with
  | nil => rfl
  | cons key keys ih =>
    obtain ⟨hnot, hnodup⟩ := List.nodup_cons.mp hnodup
    obtain ⟨hkey, hplace⟩ := List.forall_mem_cons.mp hplace
    by_cases hdir : t.view.isDirectory (packageDir.join key.path) = true
    · have hrest : ∀ other ∈ keys, (t.without (packageDir.join key.path).components).view.isDirectory
          (packageDir.join other.path) = t.view.isDirectory (packageDir.join other.path) := by
        intro other hother
        rw [Bool.eq_iff_iff, isDirectory_without_iff, hkey, hplace other hother]
        refine and_iff_left fun hbelow => hnot ?_
        exact eq_of_prefix_keyPlace hbelow ▸ hother
      have hremoved := List.filter_congr hrest
      have hfailed := List.filter_congr fun other hother => congrArg Bool.not (hrest other hother)
      have hremove : Storage.removeDirAll (packageDir.join key.path) t =
          (.ok (), t.without (packageDir.join key.path).components) :=
        removeDirAll_of_isDirectory hdir
      simp [removeAll, hremove, ih hnodup hplace, hdir, hremoved, hfailed]
    · obtain ⟨e, he⟩ := removeDirAll_of_not_isDirectory hdir
      have hremove : Storage.removeDirAll (packageDir.join key.path) t = (.error e, t) := he
      simp [removeAll, hremove, ih hnodup hplace, hdir]

theorem removeAll_of_not_isDirectory
    (h : ∀ key ∈ keys, ¬ t.view.isDirectory (packageDir.join key.path) = true) :
    removeAll packageDir keys t = (⟨[], keys⟩, t) := by
  induction keys with
  | nil => rfl
  | cons key keys ih =>
    obtain ⟨hkey, hkeys⟩ := List.forall_mem_cons.mp h
    obtain ⟨e, he⟩ := removeDirAll_of_not_isDirectory hkey
    have hremove : Storage.removeDirAll (packageDir.join key.path) t = (.error e, t) := he
    simp only [removeAll, hremove, ih hkeys]

/-! ## Pruning -/

/-- What a report says of the tree before and after pruning. -/
structure Collects (s : DedupStore) (package : String) (records : List BackupRecord)
    (packageDir : Path) (t : MemoryTree) (report : PruneReport) (after : MemoryTree) : Prop where
  all : ∃ keys, s.unreferenced package records t.view = .ok keys ∧
    (report.removed ++ report.failed).Perm keys
  garbage : ∀ key, key ∈ report.removed ++ report.failed ↔
    IsGarbage package records packageDir t key
  removed_sorted : DedupKey.AreSorted report.removed
  failed_sorted : DedupKey.AreSorted report.failed
  disjoint : ∀ key ∈ report.removed, key ∉ report.failed
  denied : ∀ key, key ∈ report.failed ↔
    IsGarbage package records packageDir t key ∧ ¬ t.IsAllowed (keyPlace packageDir key)
  gone : ∀ key ∈ report.removed, ∀ l, keyPlace packageDir key <+: l → after.node? l = none
  kept : ∀ l, (∀ key ∈ report.removed, ¬ keyPlace packageDir key <+: l) →
    after.node? l = t.node? l
  again : s.pruneUnreferenced package records after = (.ok ⟨[], report.failed⟩, after)

/-- A package that is not there has nothing to collect. -/
theorem collects_of_missing (hwf : t.WellFormed) (hpackage : s.packageDir package = .ok packageDir)
    (hmissing : t.node? packageDir.components = none)
    (hkeys : s.unreferenced package records t.view = .ok []) :
    Collects s package records packageDir t ⟨[], []⟩ t := by
  have hnone : ∀ key, ¬ IsGarbage package records packageDir t key := by
    rintro key ⟨⟨n, hn, -⟩, -⟩
    obtain ⟨name, -, hcomponents⟩ := packageDir_eq_ok hpackage
    have habove : packageDir.components ∈ (keyPlace packageDir key).ancestors :=
      Location.mem_ancestors_iff.mpr
        ⟨by simp [hcomponents], List.prefix_append _ _, by simp [keyPlace]⟩
    obtain ⟨m, hm⟩ := hwf.above hn _ habove
    rw [hmissing] at hm
    cases hm
  constructor
  · exact ⟨[], hkeys, .refl _⟩
  · exact fun key => iff_of_false nofun (hnone key)
  · exact .nil
  · exact .nil
  · nofun
  · exact fun key => iff_of_false nofun fun h => hnone key h.1
  · nofun
  · exact fun _ _ => rfl
  · exact pruneUnreferenced_of_unreferenced hpackage hkeys

/-- Garbage can be removed unless access to it is denied. -/
theorem IsGarbage.isDirectory_iff (hwf : t.WellFormed)
    (h : IsGarbage package records packageDir t key) :
    t.view.isDirectory (packageDir.join key.path) = true ↔ t.IsAllowed (keyPlace packageDir key) := by
  rw [isDirectory_view_iff_hasDirectory, h.components_join hwf, and_iff_left h.1]

section

variable (hwf : t.WellFormed) (hmem : ∀ key, key ∈ keys ↔ IsGarbage package records packageDir t key)

include hwf hmem

theorem mem_removed_iff :
    key ∈ keys.filter (fun key => t.view.isDirectory (packageDir.join key.path)) ↔
      IsGarbage package records packageDir t key ∧ t.IsAllowed (keyPlace packageDir key) := by
  rw [List.mem_filter, hmem]
  exact and_congr_right fun h => h.isDirectory_iff hwf

theorem mem_failed_iff :
    key ∈ keys.filter (fun key => !t.view.isDirectory (packageDir.join key.path)) ↔
      IsGarbage package records packageDir t key ∧ ¬ t.IsAllowed (keyPlace packageDir key) := by
  rw [List.mem_filter, hmem, Bool.not_eq_true', ← Bool.not_eq_true]
  exact and_congr_right fun h => not_congr (h.isDirectory_iff hwf)

/-- What is left is what lies in none of the directories that are garbage and allowed. -/
theorem node?_removeAll_garbage {l : Location} {n : MemoryNode} :
    (removeAll packageDir keys t).2.node? l = some n ↔ t.node? l = some n ∧
      ∀ key, IsGarbage package records packageDir t key → t.IsAllowed (keyPlace packageDir key) →
        ¬ keyPlace packageDir key <+: l := by
  rw [node?_removeAll]
  apply and_congr_right
  rintro -
  apply forall_congr'
  intro key
  rw [hmem]
  apply forall_congr'
  intro h
  rw [h.isDirectory_iff hwf, h.components_join hwf]

/-- What is garbage after pruning is what could not be removed. -/
theorem isGarbage_removeAll_iff :
    IsGarbage package records packageDir (removeAll packageDir keys t).2 key ↔
      IsGarbage package records packageDir t key ∧ ¬ t.IsAllowed (keyPlace packageDir key) := by
  constructor
  · rintro ⟨⟨n, hn, hkind⟩, hunreferenced⟩
    obtain ⟨hbefore, hkept⟩ := (node?_removeAll_garbage hwf hmem).mp hn
    have hgarbage : IsGarbage package records packageDir t key :=
      ⟨⟨n, hbefore, hkind⟩, hunreferenced⟩
    exact ⟨hgarbage, fun hallowed => hkept key hgarbage hallowed List.prefix_rfl⟩
  · rintro ⟨⟨⟨n, hn, hkind⟩, hunreferenced⟩, hdenied⟩
    refine ⟨⟨n, (node?_removeAll_garbage hwf hmem).mpr ⟨hn, ?_⟩, hkind⟩, hunreferenced⟩
    intro other _ hallowed hbelow
    exact hdenied (eq_of_prefix_keyPlace hbelow ▸ hallowed)

end

theorem removeAll_again (hreach : t.Reachable) (hpackage : s.packageDir package = .ok packageDir)
    (hdir : t.view.isDirectory packageDir = true)
    (htext : t.HasTextNamesIn packageDir.components) (hsorted : DedupKey.AreSorted keys)
    (hmem : ∀ key, key ∈ keys ↔ IsGarbage package records packageDir t key) :
    s.pruneUnreferenced package records (removeAll packageDir keys t).2 =
      (.ok ⟨[], keys.filter fun key => !t.view.isDirectory (packageDir.join key.path)⟩,
        (removeAll packageDir keys t).2) := by
  have hwf := hreach.wellFormed
  have hafter := (reachable_removeAll hreach packageDir keys).wellFormed
  -- The directory of the package lies in none of those that are removed.
  have hstays : (removeAll packageDir keys t).2.view.isDirectory packageDir = true := by
    obtain ⟨d, hallowed, hd, hkind⟩ := isDirectory_view_iff.mp hdir
    refine isDirectory_view_iff.mpr ⟨d, (isAllowed_removeAll _ _ _ _).mpr hallowed, ?_, hkind⟩
    refine (node?_removeAll_garbage hwf hmem).mpr ⟨hd, fun key _ _ hbelow => ?_⟩
    exact absurd hbelow.length_le (by simp [keyPlace])
  have htextAfter : (removeAll packageDir keys t).2.HasTextNamesIn packageDir.components :=
    fun name n hn => htext name n ((node?_removeAll_garbage hwf hmem).mp hn).1
  obtain ⟨left, hleft, hleftSorted, hleftMem⟩ :=
    unreferenced_of_isDirectory records hpackage hstays htextAfter
  have hsame : left = keys.filter fun key => !t.view.isDirectory (packageDir.join key.path) := by
    apply hleftSorted.eq_of_mem_iff (hsorted.filter _)
    intro key
    rw [hleftMem, isGarbage_removeAll_iff hwf hmem, mem_failed_iff hwf hmem]
  have hdenied : ∀ key ∈ left, ¬ (removeAll packageDir keys t).2.view.isDirectory
      (packageDir.join key.path) = true := by
    intro key hkey
    have hgarbage := (hleftMem key).mp hkey
    rw [hgarbage.isDirectory_iff hafter, isAllowed_removeAll]
    exact ((isGarbage_removeAll_iff hwf hmem).mp hgarbage).2
  rw [pruneUnreferenced_of_unreferenced hpackage hleft, removeAll_of_not_isDirectory hdenied, hsame]

theorem collects_of_isDirectory (hreach : t.Reachable)
    (hpackage : s.packageDir package = .ok packageDir)
    (hkeys : s.unreferenced package records t.view = .ok keys)
    (hdir : t.view.isDirectory packageDir = true)
    (htext : t.HasTextNamesIn packageDir.components) (hsorted : DedupKey.AreSorted keys)
    (hmem : ∀ key, key ∈ keys ↔ IsGarbage package records packageDir t key) :
    Collects s package records packageDir t (removeAll packageDir keys t).1
      (removeAll packageDir keys t).2 := by
  have hwf := hreach.wellFormed
  have hplace : ∀ key ∈ keys, (packageDir.join key.path).components = keyPlace packageDir key :=
    fun key hkey => ((hmem key).mp hkey).components_join hwf
  rw [removeAll_fst hsorted.nodup hplace]
  constructor
  · exact ⟨keys, hkeys, List.filter_append_perm _ _⟩
  · intro key
    rw [(List.filter_append_perm _ _).mem_iff, hmem]
  · exact hsorted.filter _
  · exact hsorted.filter _
  · intro key hremoved hfailed
    exact ((mem_failed_iff hwf hmem).mp hfailed).2 ((mem_removed_iff hwf hmem).mp hremoved).2
  · exact fun key => mem_failed_iff hwf hmem
  · intro key hremoved l hbelow
    obtain ⟨hgarbage, hallowed⟩ := (mem_removed_iff hwf hmem).mp hremoved
    rw [Option.eq_none_iff_forall_ne_some]
    intro n hn
    exact ((node?_removeAll_garbage hwf hmem).mp hn).2 key hgarbage hallowed hbelow
  · intro l hkept
    apply Option.ext
    intro n
    rw [node?_removeAll_garbage hwf hmem]
    refine and_iff_left fun key hgarbage hallowed => hkept key ?_
    exact (mem_removed_iff hwf hmem).mpr ⟨hgarbage, hallowed⟩
  · exact removeAll_again hreach hpackage hdir htext hsorted hmem

/-- Pruning a package collects what is garbage, except where access is denied. A prune that fails
changes nothing. -/
theorem pruneUnreferenced_collects_garbage (s : DedupStore) (package : String)
    (records : List BackupRecord) (t : MemoryTree) (hreach : t.Reachable) :
    (∀ e after, s.pruneUnreferenced package records t = (.error e, after) →
      ∀ l, after.node? l = t.node? l) ∧
    ∀ packageDir report after, s.packageDir package = .ok packageDir →
      t.HasTextNamesIn packageDir.components →
      s.pruneUnreferenced package records t = (.ok report, after) →
      Collects s package records packageDir t report after := by
  constructor
  · intro e after heq l
    rw [pruneUnreferenced_error heq]
  · intro packageDir report after hpackage htext heq
    obtain ⟨keys, hkeys, rfl, rfl⟩ := pruneUnreferenced_ok hpackage heq
    rcases unreferenced_ok hpackage hkeys with hdir | ⟨hmissing, rfl⟩
    · obtain ⟨sorted, hsame, hsorted, hmem⟩ :=
        unreferenced_of_isDirectory records hpackage hdir htext
      obtain rfl : keys = sorted := Except.ok.inj (hkeys.symm.trans hsame)
      exact collects_of_isDirectory hreach hpackage hkeys hdir htext hsorted hmem
    · exact collects_of_missing hreach.wellFormed hpackage hmissing hkeys

/-- Three directories of a package: one with the beginning of the name of another, and one that is
denied. -/
def partlyDenied : MemoryTree :=
  ((((MemoryTree.empty ⟨0⟩).addFile (.ofString "/s/p/k/a") [1] ⟨1⟩).addFile (.ofString "/s/p/kept/a")
    [1] ⟨1⟩).addFile (.ofString "/s/p/locked/a") [1] ⟨1⟩).deny (.ofString "/s/p/locked")

def pruneRecords : List BackupRecord :=
  [⟨"p", "b", ⟨0, 0⟩, none, 1, some "kept"⟩, ⟨"q", "c", ⟨0, 0⟩, none, 1, some "k"⟩]

theorem reachable_partlyDenied : partlyDenied.Reachable :=
  ((((MemoryTree.Reachable.empty ⟨0⟩).step (.addFile _ _ _)).step (.addFile _ _ _)).step
    (.addFile _ _ _)).step (.deny _)

theorem unreferenced_partlyDenied :
    keyStore.unreferenced "p" pruneRecords partlyDenied.view = .ok [⟨"k"⟩, ⟨"locked"⟩] := by
  have hpackage : keyStore.packageDir "p" = .ok (.ofString "/s/p") := by decide
  have hlist : partlyDenied.view.readDir (.ofString "/s/p") =
      .ok (["k", "kept", "locked"].map fun name => ⟨name, .directory, 0, some .epoch⟩) := by decide
  rw [unreferenced, dedupKeys, hpackage]
  dsimp only
  rw [hlist]
  dsimp only
  rw [List.mergeSort_of_pairwise (by decide)]
  decide

theorem pruneUnreferenced_collects_partlyDenied :
    partlyDenied.Reachable ∧ partlyDenied.HasTextNamesIn (Path.ofString "/s/p").components ∧
      ∃ after, keyStore.pruneUnreferenced "p" pruneRecords partlyDenied =
          (.ok ⟨[⟨"k"⟩], [⟨"locked"⟩]⟩, after) ∧
        Collects keyStore "p" pruneRecords (.ofString "/s/p") partlyDenied
          ⟨[⟨"k"⟩], [⟨"locked"⟩]⟩ after := by
  have hpackage : keyStore.packageDir "p" = .ok (.ofString "/s/p") := by decide
  have htext : partlyDenied.HasTextNamesIn (Path.ofString "/s/p").components := by
    intro name n hn
    have hall : ∀ e ∈ partlyDenied.nodes.entries, ∀ c ∈ e.1, Utf8.isValid c.label = true := by
      decide
    exact hall _ (OrderedMap.get?_eq_some_iff.mp hn) (.name name) (by simp)
  have hreport : keyStore.pruneUnreferenced "p" pruneRecords partlyDenied =
      (.ok ⟨[⟨"k"⟩], [⟨"locked"⟩]⟩, _) :=
    (pruneUnreferenced_of_unreferenced hpackage unreferenced_partlyDenied).trans
      (Prod.ext (by decide) rfl)
  exact ⟨reachable_partlyDenied, htext, _, hreport,
    (pruneUnreferenced_collects_garbage keyStore "p" pruneRecords partlyDenied
      reachable_partlyDenied).2 _ _ _ hpackage htext hreport⟩

end DedupStore

end IncrementalBackup
