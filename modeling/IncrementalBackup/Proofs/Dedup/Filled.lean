import IncrementalBackup.Proofs.Dedup.Match

/-!
# What a filled directory holds

A directory that is made anew and filled holds the copies of the paths that can be copied, and nothing
else. What can be copied is said of the tree before: removing and making the directory takes away what
lies in it, and adds what is missing above it.
-/

namespace IncrementalBackup

namespace DedupStore

open MemoryTree Dedup

variable {t : MemoryTree} {dir p : Path} {paths : List Path}

/-! ## What can be copied -/

/-- Whether a path can be copied into a directory that is made anew. The path is there then if it was
there and does not lie in the directory, or if it is the directory or lies above it. -/
def IsCopyable (t : MemoryTree) (dir p : Path) : Prop :=
  ∃ name ∈ p.fileName?, t.IsAllowed p.components ∧
    t.IsAllowed (dir.components ++ [.name name]) ∧
    (p.components <+: dir.components ∨
      (¬ dir.components <+: p.components ∧ (t.node? p.components).isSome = true))

instance (t : MemoryTree) (dir p : Path) : Decidable (IsCopyable t dir p) :=
  inferInstanceAs (Decidable (∃ name ∈ p.fileName?, _))

/-- A path that can be copied leads out of the directory, or is the directory. -/
theorem IsCopyable.eq_of_prefix (h : IsCopyable t dir p) (hbelow : dir.components <+: p.components) :
    p.components = dir.components := by
  obtain ⟨-, -, -, -, habove | ⟨hnot, -⟩⟩ := h
  · exact habove.eq_of_length_le hbelow.length_le
  · exact absurd hbelow hnot

theorem components_ne_nil_of_fileName? {name : List UInt8} (h : p.fileName? = some name) :
    p.components ≠ [] := by
  intro hnil
  rw [Path.fileName?, hnil] at h
  cases h

/-- If the directory is there, what lies above it is there anyway. -/
theorem isCopiedAnew_iff_isCopyable (hwf : t.WellFormed) (hdir : t.view.isDirectory dir = true) :
    IsCopiedAnew t dir p ↔ IsCopyable t dir p := by
  obtain ⟨d, -, hd, -⟩ := isDirectory_view_iff.mp hdir
  constructor
  · rintro ⟨hcontains, hself, name, hname, htarget⟩
    obtain ⟨n, hallowed, hn⟩ := contains_view_iff.mp hcontains
    refine ⟨name, hname, hallowed, htarget, ?_⟩
    by_cases hbelow : dir.components <+: p.components
    · exact .inl (hself hbelow ▸ List.prefix_rfl)
    · exact .inr ⟨hbelow, by rw [hn]; rfl⟩
  · rintro ⟨name, hname, hallowed, htarget, habove | ⟨hnot, hthere⟩⟩
    · obtain ⟨n, hn⟩ : ∃ n, t.node? p.components = some n := by
        by_cases hself : p.components = dir.components
        · exact ⟨d, hself ▸ hd⟩
        · exact hwf.above hd _ (Location.mem_ancestors_iff.mpr
            ⟨components_ne_nil_of_fileName? hname, habove, hself⟩)
      exact ⟨contains_view_iff.mpr ⟨n, hallowed, hn⟩,
        fun hbelow => habove.eq_of_length_le hbelow.length_le, name, hname, htarget⟩
    · obtain ⟨n, hn⟩ := Option.isSome_iff_exists.mp hthere
      exact ⟨contains_view_iff.mpr ⟨n, hallowed, hn⟩, fun hbelow => absurd hbelow hnot, name, hname,
        htarget⟩

theorem isSome_node?_renewed {l : Location} (hne : l ≠ []) :
    ((renewed t dir).node? l).isSome = true ↔ l <+: dir.components ∨
      (¬ dir.components <+: l ∧ (t.node? l).isSome = true) := by
  rw [node?_renewed]
  split
  · rename_i hself
    simp [hself]
  · rename_i hself
    split
    · rename_i hbelow
      have hnot : ¬ l <+: dir.components := fun habove =>
        hself (habove.eq_of_length_le hbelow.length_le)
      simp [hbelow, hnot]
    · rename_i hbelow
      have hancestors : l ∈ dir.components.ancestors ↔ l <+: dir.components := by
        simp [Location.mem_ancestors_iff, hne, hself]
      split
      · rename_i habove
        simp [hancestors.mp habove]
      · rename_i habove
        have hnot : ¬ l <+: dir.components := fun h => habove (hancestors.mpr h)
        simp [hbelow, hnot]

theorem canCopy_renewed_iff : (renewed t dir).CanCopy dir p ↔ IsCopyable t dir p := by
  simp only [MemoryTree.CanCopy, IsCopyable, Option.mem_def, node_eq_ok_iff,
    (isRenewed_renewed t dir).allowed]
  apply exists_congr
  intro name
  constructor
  · rintro ⟨n, hname, ⟨hallowed, hn⟩, htarget⟩
    have hne := components_ne_nil_of_fileName? hname
    exact ⟨hname, hallowed, htarget, (isSome_node?_renewed hne).mp (by rw [hn]; rfl)⟩
  · rintro ⟨hname, hallowed, htarget, hthere⟩
    have hne := components_ne_nil_of_fileName? hname
    obtain ⟨n, hn⟩ := Option.isSome_iff_exists.mp ((isSome_node?_renewed hne).mpr hthere)
    exact ⟨n, hname, ⟨hallowed, hn⟩, htarget⟩

/-! ## What a filled directory holds -/

theorem node?_renewed_self (t : MemoryTree) (dir : Path) :
    (renewed t dir).node? dir.components = some ⟨.directory, t.now, []⟩ := by
  rw [node?_renewed, if_pos rfl]

theorem node?_renewed_name (t : MemoryTree) (dir : Path) (name : List UInt8) :
    (renewed t dir).node? (dir.components ++ [.name name]) = none := by
  rw [node?_renewed, if_neg (by simp), if_pos (List.prefix_append _ _)]

theorem node?_filled_name (hnodup : (paths.filterMap Path.fileName?).Nodup) {name : List UInt8}
    {n : MemoryNode} :
    (filled t dir paths).node? (dir.components ++ [.name name]) = some n ↔
      ∃ p ∈ paths, IsCopy (renewed t dir) dir p name n := by
  rw [filled, node?_foldl_copied_name (node?_renewed_self t dir) rfl hnodup,
    node?_renewed_name]
  simp

theorem node?_filled_of_ne {l : Location} (hl : ∀ name, l ≠ dir.components ++ [.name name]) :
    (filled t dir paths).node? l = (renewed t dir).node? l :=
  node?_foldl_copied (node?_renewed_self t dir) rfl paths hl

theorem hasFile_filled (hnodup : (paths.filterMap Path.fileName?).Nodup) (name : List UInt8) :
    (filled t dir paths).HasFile (dir.components ++ [.name name]) ↔
      ∃ p ∈ paths, p.fileName? = some name ∧ IsCopyable t dir p := by
  simp only [MemoryTree.HasFile, node?_filled_name hnodup, ← canCopy_renewed_iff, canCopy_iff]
  constructor
  · rintro ⟨n, ⟨p, hp, hcopy⟩, -⟩
    exact ⟨p, hp, n, hcopy⟩
  · rintro ⟨p, hp, n, hcopy⟩
    obtain ⟨-, -, m, -, hn⟩ := id hcopy
    exact ⟨n, ⟨p, hp, hcopy⟩, congrArg MemoryNode.kind hn⟩

theorem isDirectory_filled (hrenews : CanRenew t dir) (paths : List Path) :
    (filled t dir paths).view.isDirectory dir = true :=
  isDirectory_foldl_copied (isRenewed_renewed t dir) hrenews.allowed paths

/-- A name is found in the filled directory if it is shown of a path that could be copied. -/
theorem missingNames_filled_eq_nil_iff (hrenews : CanRenew t dir)
    (hnodup : (paths.filterMap Path.fileName?).Nodup) :
    missingNames (filled t dir paths).view dir paths = [] ↔
      ∀ p ∈ paths, ∃ q ∈ paths, IsCopyable t dir q ∧ shownName q = shownName p := by
  rw [missingNames_eq_nil_iff (isDirectory_filled hrenews paths)]
  simp only [hasFile_filled hnodup]
  apply forall_congr'
  intro p
  apply forall_congr'
  rintro -
  constructor
  · rintro ⟨name, ⟨q, hq, hname, hcopy⟩, hshown⟩
    exact ⟨q, hq, hcopy, (shownName_of_fileName? hname).trans hshown⟩
  · rintro ⟨q, hq, hcopy, hshown⟩
    obtain ⟨name, hname, -⟩ := id hcopy
    exact ⟨name, ⟨q, hq, hname, hcopy⟩, (shownName_of_fileName? hname).symm.trans hshown⟩

theorem isAllowed_filled {l : Location} : (filled t dir paths).IsAllowed l ↔ t.IsAllowed l := by
  rw [filled, isAllowed_foldl_copied, (isRenewed_renewed t dir).allowed]

theorem reachable_foldl_copied (h : t.Reachable) (dir : Path) (paths : List Path) :
    (paths.foldl (copied dir) t).Reachable := by
  induction paths generalizing t with
  | nil => exact h
  | cons p paths ih =>
    have hcopied : (copied dir t p).Reachable := by
      unfold copied
      split
      · exact h
      · exact h.step (.copyFile _ _)
    exact ih hcopied

theorem reachable_filled (h : t.Reachable) (hne : dir.components ≠ []) (hrenews : CanRenew t dir)
    (paths : List Path) : (filled t dir paths).Reachable := by
  obtain ⟨cleared, hclear, hmake⟩ := clear_createDirAll h.wellFormed hne hrenews
  have hcleared : (clear dir t).2.Reachable := by
    unfold clear
    split
    · exact h.step (.removeDirAll dir)
    · exact h
  rw [hclear] at hcleared
  have hrenewed := hcleared.step (.createDirAll dir)
  rw [hmake] at hrenewed
  exact reachable_foldl_copied hrenewed dir paths

theorem eq_of_fileName?_eq (hnodup : (paths.filterMap Path.fileName?).Nodup) {q : Path}
    {name : List UInt8} (hp : p ∈ paths) (hq : q ∈ paths) (hpname : p.fileName? = some name)
    (hqname : q.fileName? = some name) : p = q := by
  induction paths with
  | nil => cases hp
  | cons first paths ih =>
    rcases List.mem_cons.mp hp with rfl | hprest
    · rcases List.mem_cons.mp hq with rfl | hqrest
      · rfl
      · exact absurd hqname (fileName?_ne_of_nodup hnodup hqrest name hpname)
    · rcases List.mem_cons.mp hq with rfl | hqrest
      · exact absurd hpname (fileName?_ne_of_nodup hnodup hprest name hqname)
      · exact ih (nodup_fileName?_tail hnodup) hprest hqrest

/-- The names of a set are texts, so that different names are shown as different texts. -/
def HasTextNames (paths : List Path) : Prop :=
  ∀ p ∈ paths, ∀ name, p.fileName? = some name → Utf8.isValid name = true

instance (paths : List Path) : Decidable (HasTextNames paths) :=
  inferInstanceAs (Decidable (∀ p ∈ paths, ∀ name ∈ p.fileName?, _))

theorem HasTextNames.eq_of_lossy_eq (h : HasTextNames paths) {q : Path} {name other : List UInt8}
    (hp : p ∈ paths) (hq : q ∈ paths) (hname : p.fileName? = some name)
    (hother : q.fileName? = some other) (hshown : Utf8.lossy name = Utf8.lossy other) :
    name = other := by
  rw [← Utf8.encode_lossy_of_isValid (h p hp name hname), hshown,
    Utf8.encode_lossy_of_isValid (h q hq other hother)]

/-- A name is shown in the filled directory if its own path could be copied. -/
theorem shows_filled_iff (hnodup : (paths.filterMap Path.fileName?).Nodup)
    (htext : HasTextNames paths) (hp : p ∈ paths) :
    (∃ other, (filled t dir paths).HasFile (dir.components ++ [.name other]) ∧
      Utf8.lossy other = shownName p) ↔ IsCopyable t dir p := by
  simp only [hasFile_filled hnodup]
  constructor
  · rintro ⟨other, ⟨q, hq, hother, hcopy⟩, hshown⟩
    obtain ⟨name, hname⟩ :=
      exists_fileName?_of_shownName (Path.isPlain_of_fileName? hother) hshown.symm
    have hsame : other = name := htext.eq_of_lossy_eq hq hp hother hname
      (hshown.trans (shownName_of_fileName? hname))
    obtain rfl : q = p := eq_of_fileName?_eq hnodup hq hp hother (hsame ▸ hname)
    exact hcopy
  · intro hcopy
    obtain ⟨name, hname, -⟩ := id hcopy
    exact ⟨name, ⟨p, hp, hname, hcopy⟩, (shownName_of_fileName? hname).symm⟩

/-- What is missing are the names of the paths that could not be copied, in their order. -/
theorem missingNames_filled (hrenews : CanRenew t dir)
    (hnodup : (paths.filterMap Path.fileName?).Nodup) (htext : HasTextNames paths) :
    missingNames (filled t dir paths).view dir paths =
      (paths.filter fun p => ¬ IsCopyable t dir p).map shownName := by
  obtain ⟨n, hallowed, hn, hkind⟩ := isDirectory_view_iff.mp (isDirectory_filled hrenews paths)
  have hlist := readDir_of_isDirectory hallowed hn hkind
  have hview : (filled t dir paths).view.readDir dir = (filled t dir paths).readDir dir := rfl
  simp only [missingNames, hview, hlist, List.filter_map]
  congr 1
  apply List.filter_congr
  intro p hp
  rw [Bool.eq_iff_iff]
  simp [mem_fileNames_iff hlist, shows_filled_iff hnodup htext hp]

theorem isCopyable_of_missingNames_filled (hrenews : CanRenew t dir)
    (hnodup : (paths.filterMap Path.fileName?).Nodup) (htext : HasTextNames paths)
    (h : missingNames (filled t dir paths).view dir paths = []) (hp : p ∈ paths) :
    IsCopyable t dir p := by
  rw [missingNames_filled hrenews hnodup htext] at h
  simpa using List.filter_eq_nil_iff.mp (List.map_eq_nil_iff.mp h) p hp

/-- What the filled directory matches: files whose names are shown by some of the paths. -/
theorem verifyMatch_filled (hrenews : CanRenew t dir)
    (hnodup : (paths.filterMap Path.fileName?).Nodup)
    (hnames : missingNames (filled t dir paths).view dir paths = []) {others : List Path} :
    verifyMatch (filled t dir paths).view dir others = true ↔ ∀ p ∈ others,
      (∃ name, p.fileName? = some name) ∧ ∃ q ∈ paths, shownName q = shownName p := by
  have hdir := isDirectory_filled hrenews paths
  rw [verifyMatch_iff, and_iff_right hdir]
  apply forall_congr'
  intro p
  apply forall_congr'
  rintro -
  constructor
  · rintro ⟨name, hname, other, hfile, hshown⟩
    obtain ⟨q, hq, hother, -⟩ := (hasFile_filled hnodup other).mp hfile
    refine ⟨⟨name, hname⟩, q, hq, ?_⟩
    rw [shownName_of_fileName? hother, hshown, shownName_of_fileName? hname]
  · rintro ⟨⟨name, hname⟩, q, hq, hshown⟩
    obtain ⟨other, hfile, hother⟩ := (missingNames_eq_nil_iff hdir).mp hnames q hq
    refine ⟨name, hname, other, hfile, ?_⟩
    rw [hother, hshown, shownName_of_fileName? hname]

/-! ## What is kept outside -/

/-- Outside a directory nothing changes or goes away, and nothing but directories above it is added. -/
structure KeepsOutside (dir : Path) (before after : MemoryTree) : Prop where
  kept : ∀ l n, ¬ dir.components <+: l → before.node? l = some n → after.node? l = some n
  added : ∀ l n, ¬ dir.components <+: l → before.node? l = none → after.node? l = some n →
    l ∈ dir.components.ancestors ∧ n.kind = .directory

theorem keepsOutside_filled (t : MemoryTree) (dir : Path) (paths : List Path) :
    KeepsOutside dir t (filled t dir paths) := by
  have houtside : ∀ l, ¬ dir.components <+: l →
      (filled t dir paths).node? l = (renewed t dir).node? l := by
    intro l hl
    apply node?_filled_of_ne
    rintro name rfl
    exact hl (List.prefix_append _ _)
  constructor
  · intro l n hl hn
    rw [houtside l hl]
    exact (isRenewed_renewed t dir).kept l n hl hn
  · intro l n hl hnone hn
    have hself : l ≠ dir.components := fun heq => hl (heq ▸ List.prefix_rfl)
    rw [houtside l hl, node?_renewed, if_neg hself, if_neg hl, hnone] at hn
    split at hn
    · rename_i habove
      obtain rfl := Option.some.inj hn
      exact ⟨habove, rfl⟩
    · cases hn

theorem KeepsOutside.node?_eq {after : MemoryTree} (h : KeepsOutside dir t after) {l : Location}
    (hbelow : ¬ dir.components <+: l) (habove : l ∉ dir.components.ancestors) :
    after.node? l = t.node? l := by
  cases hn : t.node? l with
  | some n => exact h.kept l n hbelow hn
  | none =>
    rw [Option.eq_none_iff_forall_ne_some]
    intro n hafter
    exact habove (h.added l n hbelow hn hafter).1

theorem KeepsOutside.without {after : MemoryTree} (h : KeepsOutside dir t after) :
    KeepsOutside dir t (after.without dir.components) := by
  constructor
  · intro l n hl hn
    rw [node?_without, if_neg hl]
    exact h.kept l n hl hn
  · intro l n hl hnone hn
    rw [node?_without, if_neg hl] at hn
    exact h.added l n hl hnone hn

end DedupStore

end IncrementalBackup
