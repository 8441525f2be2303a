import IncrementalBackup.Proofs.Storage.Reachable

/-!
# What an operation changes

An operation that fails changes nothing. One that succeeds changes the nodes it is about and no
others: the directories that are missing down to a place, one file, or everything at a place and
below it. Below is meant by components, so a place whose name only begins with that of another one is
left alone.
-/

namespace IncrementalBackup.MemoryTree

variable {t t' : MemoryTree} {p source target : Path} {e : AccessError}

/-- A place and the places above it have directories where nothing was. -/
structure AddsDirectories (t t' : MemoryTree) (place : Location) : Prop where
  directory : t'.HasDirectory place
  kept : ∀ l n, t.node? l = some n → t'.node? l = some n
  added : ∀ l, t.node? l = none → l = place ∨ l ∈ place.ancestors → t'.HasDirectory l
  only : ∀ l, t.node? l = none → ¬ (l = place ∨ l ∈ place.ancestors) → t'.node? l = none

structure WritesFile (t t' : MemoryTree) (place : Location) (data : List UInt8) : Prop where
  file : ∃ n, t'.node? place = some n ∧ n.kind = .file ∧ n.data = data
  kept : ∀ l, l ≠ place → t'.node? l = t.node? l

structure RemovesAll (t t' : MemoryTree) (place : Location) : Prop where
  removed : ∀ l, place <+: l → t'.node? l = none
  kept : ∀ l, ¬ place <+: l → t'.node? l = t.node? l

/-! ## Failure -/

theorem createDirAll_eq_error (h : createDirAll p t = (.error e, t')) : t' = t := by
  rcases createDirAll_cases p t with ⟨_, heq⟩ | ⟨-, heq⟩ | ⟨-, -, heq⟩
  · rw [heq] at h
    exact (congrArg Prod.snd h).symm
  · rw [heq] at h
    cases h
  · rw [heq] at h
    cases h

theorem copyFile_eq_error (h : copyFile source target t = (.error e, t')) : t' = t := by
  rcases copyFile_cases source target t with ⟨_, heq⟩ | ⟨n, -, -, -, heq⟩
  · rw [heq] at h
    exact (congrArg Prod.snd h).symm
  · rw [heq] at h
    cases h

theorem removeDirAll_eq_error (h : removeDirAll p t = (.error e, t')) : t' = t := by
  by_cases hdir : t.view.isDirectory p = true
  · rw [removeDirAll_of_isDirectory hdir] at h
    cases h
  · obtain ⟨_, heq⟩ := removeDirAll_of_not_isDirectory hdir
    rw [heq] at h
    exact (congrArg Prod.snd h).symm

/-! ## Success -/

/-- Where there is a node there are nodes above it, so no directory is missing. -/
theorem addsDirectories_self (hwf : WellFormed t) {place : Location} (h : t.HasDirectory place) :
    AddsDirectories t t place where
  directory := h
  kept _ _ hn := hn
  added l hl hplace := by
    obtain ⟨n, hn, -⟩ := h
    have hnode : ∃ m, t.node? l = some m := by
      rcases hplace with rfl | habove
      · exact ⟨n, hn⟩
      · exact hwf.above hn l habove
    obtain ⟨m, hm⟩ := hnode
    rw [hl] at hm
    cases hm
  only _ hl _ := hl

theorem addsDirectories_put (hn : t.node? p.components = none) (modified : Instant) :
    AddsDirectories t (t.put p ⟨.directory, modified, []⟩) p.components where
  directory := ⟨_, by rw [node?_put, if_pos rfl], rfl⟩
  kept l n hl := by
    have hne : l ≠ p.components := by
      rintro rfl
      rw [hn] at hl
      cases hl
    rw [node?_put, if_neg hne, hl]
    split <;> rfl
  added l hl hplace := by
    rw [HasDirectory, node?_put, hl]
    split
    · exact ⟨_, rfl, rfl⟩
    · rename_i hne
      rw [if_pos (hplace.resolve_left hne)]
      exact ⟨_, rfl, rfl⟩
  only l hl hplace := by
    obtain ⟨hne, hnot⟩ := not_or.mp hplace
    rw [node?_put, if_neg hne, if_neg hnot, hl]

theorem addsDirectories_createDirAll (hwf : WellFormed t) (h : createDirAll p t = (.ok (), t')) :
    AddsDirectories t t' p.components := by
  rcases createDirAll_cases p t with ⟨e, heq⟩ | ⟨hdir, heq⟩ | ⟨-, hn, heq⟩
  · rw [heq] at h
    cases h
  · rw [heq] at h
    obtain rfl := congrArg Prod.snd h
    exact addsDirectories_self hwf hdir
  · rw [heq] at h
    obtain rfl := congrArg Prod.snd h
    exact addsDirectories_put hn t.now

theorem writesFile_copyFile {size : Nat} (h : copyFile source target t = (.ok size, t')) :
    ∃ n, t.node source = .ok n ∧ size = n.data.length ∧ WritesFile t t' target.components n.data := by
  rcases copyFile_cases source target t with ⟨e, heq⟩ | ⟨n, hn, -, -, heq⟩
  · rw [heq] at h
    cases h
  · rw [heq] at h
    obtain ⟨hsize, rfl⟩ := Prod.mk.inj h
    have hfile : (t.withFile target.components n.data).node? target.components =
        some ⟨.file, t.now, n.data⟩ := by
      rw [node?_withFile, if_pos rfl]
    refine ⟨n, hn, (Except.ok.inj hsize).symm, ⟨_, hfile, rfl, rfl⟩, fun l hl => ?_⟩
    rw [node?_withFile, if_neg hl]

theorem removesAll_removeDirAll (h : removeDirAll p t = (.ok (), t')) :
    RemovesAll t t' p.components := by
  by_cases hdir : t.view.isDirectory p = true
  · rw [removeDirAll_of_isDirectory hdir] at h
    obtain rfl := congrArg Prod.snd h
    refine ⟨fun l hl => ?_, fun l hl => ?_⟩
    · rw [node?_without, if_pos hl]
    · rw [node?_without, if_neg hl]
  · obtain ⟨e, heq⟩ := removeDirAll_of_not_isDirectory hdir
    rw [heq] at h
    cases h

/-- In every tree that has come about, the places above a node have nodes. What fails leaves such a
tree as it was, and what succeeds changes no other nodes than it is about. -/
theorem operation_changes_all_or_nothing (h : Reachable t) :
    (∀ l n, t.node? l = some n → ∀ above ∈ l.ancestors, ∃ m, t.node? above = some m) ∧
    (∀ p e t', createDirAll p t = (.error e, t') → t' = t) ∧
    (∀ source target e t', copyFile source target t = (.error e, t') → t' = t) ∧
    (∀ p e t', removeDirAll p t = (.error e, t') → t' = t) ∧
    (∀ p t', createDirAll p t = (.ok (), t') → AddsDirectories t t' p.components) ∧
    (∀ source target size t', copyFile source target t = (.ok size, t') →
      ∃ n, t.node source = .ok n ∧ size = n.data.length ∧
        WritesFile t t' target.components n.data) ∧
    (∀ p t', removeDirAll p t = (.ok (), t') → RemovesAll t t' p.components) :=
  ⟨fun _ _ hn => h.wellFormed.above hn, fun _ _ _ => createDirAll_eq_error,
    fun _ _ _ _ => copyFile_eq_error, fun _ _ _ => removeDirAll_eq_error,
    fun _ _ => addsDirectories_createDirAll h.wellFormed, fun _ _ _ _ => writesFile_copyFile,
    fun _ _ => removesAll_removeDirAll⟩

/-- Two directories of which the name of one begins with that of the other. -/
def nextTo : MemoryTree :=
  (((MemoryTree.empty ⟨5⟩).addFile (.ofString "/store/a/base.apk") [1] ⟨1⟩).addFile
    (.ofString "/store/ab/base.apk") [2, 3] ⟨1⟩).deny (.ofString "/store/b")

theorem reachable_nextTo : nextTo.Reachable :=
  (((MemoryTree.Reachable.empty ⟨5⟩).step (.addFile _ _ _)).step (.addFile _ _ _)).step (.deny _)

theorem operation_changes_all_or_nothing_nextTo :
    nextTo.Reachable ∧
      (createDirAll (.ofString "/store/b") nextTo).2 = nextTo ∧
      AddsDirectories nextTo (createDirAll (.ofString "/store/b/k/") nextTo).2
        (Path.ofString "/store/b/k").components ∧
      WritesFile nextTo
        (copyFile (.ofString "/store/ab/base.apk") (.ofString "/store/a/base.apk") nextTo).2
        (Path.ofString "/store/a/base.apk").components [2, 3] ∧
      RemovesAll nextTo (removeDirAll (.ofString "/store/a") nextTo).2
        (Path.ofString "/store/a").components ∧
      (removeDirAll (.ofString "/store/a") nextTo).2.node?
          (Path.ofString "/store/ab/base.apk").components = some ⟨.file, ⟨1⟩, [2, 3]⟩ := by
  obtain ⟨-, hcreateError, -, -, hcreate, hcopy, hremove⟩ :=
    operation_changes_all_or_nothing reachable_nextTo
  have hdenied : (createDirAll (.ofString "/store/b") nextTo).1 =
      .error (.storage ⟨.ofString "/store/b", .bare .permissionDenied, none⟩) := by decide
  have hmade : (createDirAll (.ofString "/store/b/k/") nextTo).1 = .ok () := by decide
  have hcopied : (copyFile (.ofString "/store/ab/base.apk") (.ofString "/store/a/base.apk")
      nextTo).1 = .ok 2 := by decide
  have hremoved : (removeDirAll (.ofString "/store/a") nextTo).1 = .ok () := by decide
  have hremovesAll := hremove _ (removeDirAll (.ofString "/store/a") nextTo).2
    (Prod.ext hremoved rfl)
  obtain ⟨n, hn, -, hwrites⟩ := hcopy _ _ _ _ (Prod.ext hcopied rfl)
  have hsource : nextTo.node (.ofString "/store/ab/base.apk") = .ok ⟨.file, ⟨1⟩, [2, 3]⟩ := by
    decide
  rw [hsource] at hn
  obtain rfl := Except.ok.inj hn
  refine ⟨reachable_nextTo, hcreateError _ _ _ (Prod.ext hdenied rfl),
    hcreate _ _ (Prod.ext hmade rfl), hwrites, hremovesAll, ?_⟩
  rw [hremovesAll.kept _ (by decide)]
  decide

end IncrementalBackup.MemoryTree
