import IncrementalBackup.Proofs.Storage.Reachable

/-!
# Trees in which only directories hold nodes

In a tree every place above a node is a directory. Removing keeps it so. Making a directory does not
if something else is on the way to it: only the place itself is looked at, and not those above it.
Copying does not if the target holds nodes, which are then held by a file. Nothing else spoils a tree.
-/

namespace IncrementalBackup.MemoryTree

variable {t : MemoryTree} {p source target : Path} {place l : Location}

theorem hasDirectory_iff : t.HasDirectory l ↔ (t.node? l).map (·.kind) = some .directory := by
  rw [Option.map_eq_some_iff]
  rfl

instance (t : MemoryTree) (l : Location) : Decidable (t.HasDirectory l) :=
  decidable_of_iff _ hasDirectory_iff.symm

/-- Every place above a node, the empty one left out, is a directory. -/
def IsTree (t : MemoryTree) : Prop :=
  ∀ l n, t.node? l = some n → ∀ above ∈ l.ancestors, t.HasDirectory above

theorem isTree_iff : t.IsTree ↔ ∀ e ∈ t.nodes.entries, ∀ above ∈ e.1.ancestors,
    t.HasDirectory above := by
  constructor
  · intro h e he
    exact h e.1 e.2 (OrderedMap.get?_eq_some_iff.mpr he)
  · intro h l n hn
    exact h (l, n) (OrderedMap.get?_eq_some_iff.mp hn)

instance (t : MemoryTree) : Decidable t.IsTree := decidable_of_iff _ isTree_iff.symm

/-- Something other than a directory is above a place. -/
def IsObstructed (t : MemoryTree) (place : Location) : Prop :=
  ∃ above ∈ place.ancestors, ∃ n, t.node? above = some n ∧ n.kind ≠ .directory

/-- Some node lies below a place. -/
def HoldsNodes (t : MemoryTree) (place : Location) : Prop :=
  ∃ l n, t.node? l = some n ∧ place ∈ l.ancestors

/-- A copy succeeds if its source can be read, access to its target is allowed, and there is a
directory above the target. -/
structure IsWritable (t : MemoryTree) (source target : Path) : Prop where
  readable : ∃ n, t.node source = .ok n
  allowed : t.IsAllowed target.components
  parent : t.HasDirectory (target.parent?.getD ⟨[]⟩).components

/-! ## Making directories -/

theorem not_isObstructed_iff : ¬ t.IsObstructed place ↔
    ∀ above ∈ place.ancestors, t.node? above = none ∨ t.HasDirectory above := by
  constructor
  · intro h above habove
    cases hn : t.node? above with
    | none => exact .inl rfl
    | some n =>
      refine .inr ⟨n, hn, ?_⟩
      by_contra hkind
      exact h ⟨above, habove, n, hn, hkind⟩
  · rintro h ⟨above, habove, n, hn, hkind⟩
    rcases h above habove with hnone | ⟨d, hd, hdir⟩
    · cases hnone.symm.trans hn
    · exact hkind (Option.some.inj (hd.symm.trans hn) ▸ hdir)

theorem HasDirectory.put_of_ancestor (h : ¬ t.IsObstructed p.components) (n : MemoryNode)
    (hl : l ∈ p.components.ancestors) : (t.put p n).HasDirectory l := by
  have hne : l ≠ p.components := (Location.mem_ancestors_iff.mp hl).2.2
  rw [HasDirectory, node?_put, if_neg hne, if_pos hl]
  rcases not_isObstructed_iff.mp h l hl with hnone | ⟨m, hm, hdir⟩
  · rw [hnone]
    exact ⟨_, rfl, rfl⟩
  · rw [hm]
    exact ⟨m, rfl, hdir⟩

theorem HasDirectory.put (h : t.HasDirectory l) (hn : t.node? p.components = none)
    (n : MemoryNode) : (t.put p n).HasDirectory l := by
  obtain ⟨m, hm, hkind⟩ := h
  have hne : l ≠ p.components := by
    rintro rfl
    rw [hn] at hm
    cases hm
  refine ⟨m, ?_, hkind⟩
  rw [node?_put, if_neg hne, hm]
  split <;> rfl

/-- What is put where nothing was lies below directories if nothing else is in the way. -/
theorem IsTree.put (h : t.IsTree) (hn : t.node? p.components = none)
    (hfree : ¬ t.IsObstructed p.components) (n : MemoryNode) : (t.put p n).IsTree := by
  intro l m hm above habove
  rcases isSome_node?_put.mp ⟨m, hm⟩ with rfl | hl | ⟨k, hk⟩
  · exact .put_of_ancestor hfree n habove
  · exact .put_of_ancestor hfree n (Location.mem_ancestors_trans habove hl)
  · exact (h l k hk above habove).put hn n

/-- What is in the way is still there, and above the new node. -/
theorem not_isTree_put (n : MemoryNode) (h : t.IsObstructed p.components) :
    ¬ (t.put p n).IsTree := by
  obtain ⟨above, habove, m, hm, hkind⟩ := h
  intro htree
  have hself : (t.put p n).node? p.components = some n := by rw [node?_put, if_pos rfl]
  have hkept : (t.put p n).node? above = some m := by
    rw [node?_put, if_neg (Location.mem_ancestors_iff.mp habove).2.2, if_pos habove, hm]
    rfl
  obtain ⟨d, hd, hdir⟩ := htree _ n hself above habove
  rw [hkept] at hd
  obtain rfl := Option.some.inj hd
  exact hkind hdir

theorem isTree_createDirAll_iff (h : t.IsTree) :
    (createDirAll p t).2.IsTree ↔
      ¬ (t.IsAllowed p.components ∧ t.node? p.components = none ∧ t.IsObstructed p.components) := by
  constructor
  · rintro htree ⟨hallowed, hn, hobstructed⟩
    rw [createDirAll_of_none hallowed hn] at htree
    exact not_isTree_put _ hobstructed htree
  · intro hfree
    rcases createDirAll_cases p t with ⟨e, heq⟩ | ⟨-, heq⟩ | ⟨hallowed, hn, heq⟩
    · rwa [heq]
    · rwa [heq]
    · rw [heq]
      exact h.put hn (fun hobstructed => hfree ⟨hallowed, hn, hobstructed⟩) _

/-! ## Copying -/

theorem IsTree.above_of_parent? (h : t.IsTree)
    (hparent : t.HasDirectory (target.parent?.getD ⟨[]⟩).components) :
    ∀ above ∈ target.components.ancestors, t.HasDirectory above := by
  intro above habove
  obtain ⟨n, hn, hdir⟩ := hparent
  rcases Location.eq_or_mem_ancestors_of_path habove with rfl | habove
  · exact ⟨n, hn, hdir⟩
  · exact h _ n hn above habove

theorem HasDirectory.withFile (h : t.HasDirectory l) (hl : l ≠ place) (data : List UInt8) :
    (t.withFile place data).HasDirectory l := by
  rwa [HasDirectory, node?_withFile, if_neg hl]

/-- A file below directories that holds no nodes. -/
theorem IsTree.withFile (h : t.IsTree) (habove : ∀ above ∈ place.ancestors, t.HasDirectory above)
    (hempty : ¬ t.HoldsNodes place) (data : List UInt8) : (t.withFile place data).IsTree := by
  intro l n hn above hmem
  rw [node?_withFile] at hn
  split at hn
  · rename_i hl
    subst hl
    exact (habove above hmem).withFile (Location.mem_ancestors_iff.mp hmem).2.2 data
  · have hne : above ≠ place := by
      rintro rfl
      exact hempty ⟨l, n, hn, hmem⟩
    exact (h l n hn above hmem).withFile hne data

/-- What lay below the place lies below a file. -/
theorem not_isTree_withFile (h : t.HoldsNodes place) (data : List UInt8) :
    ¬ (t.withFile place data).IsTree := by
  obtain ⟨l, n, hn, hmem⟩ := h
  intro htree
  have hne : l ≠ place := fun hl => (Location.mem_ancestors_iff.mp hmem).2.2 hl.symm
  have hkept : (t.withFile place data).node? l = some n := by
    rw [node?_withFile, if_neg hne, hn]
  obtain ⟨d, hd, hdir⟩ := htree l n hkept place hmem
  rw [node?_withFile, if_pos rfl] at hd
  obtain rfl := Option.some.inj hd
  cases hdir

theorem isTree_copyFile_iff (h : t.IsTree) :
    (copyFile source target t).2.IsTree ↔
      ¬ (t.IsWritable source target ∧ t.HoldsNodes target.components) := by
  constructor
  · rintro htree ⟨⟨⟨n, hn⟩, hallowed, hparent⟩, hholds⟩
    rw [copyFile_of_hasDirectory hn hallowed hparent] at htree
    exact not_isTree_withFile hholds n.data htree
  · intro hfree
    rcases copyFile_cases source target t with ⟨e, heq⟩ | ⟨n, hn, hallowed, hparent, heq⟩
    · rwa [heq]
    · rw [heq]
      refine h.withFile (h.above_of_parent? hparent) (fun hholds => ?_) n.data
      exact hfree ⟨⟨⟨n, hn⟩, hallowed, hparent⟩, hholds⟩

/-! ## Removing -/

theorem IsTree.without (h : t.IsTree) (place : Location) : (t.without place).IsTree := by
  intro l n hn above hmem
  rw [node?_without] at hn
  split at hn
  · cases hn
  · rename_i hbelow
    have hkept : ¬ place <+: above := fun hplace =>
      hbelow (hplace.trans (Location.mem_ancestors_iff.mp hmem).2.1)
    rw [HasDirectory, node?_without, if_neg hkept]
    exact h l n hn above hmem

theorem isTree_removeDirAll (h : t.IsTree) (p : Path) : (removeDirAll p t).2.IsTree := by
  by_cases hdir : t.view.isDirectory p = true
  · rw [removeDirAll_of_isDirectory hdir]
    exact h.without p.components
  · obtain ⟨e, heq⟩ := removeDirAll_of_not_isDirectory hdir
    rwa [heq]

/-- A tree is a tree after every operation, but for two cases: a directory is made behind something
that is no directory, or a file is copied over a place that holds nodes. -/
theorem operation_keeps_tree_iff (h : t.IsTree) :
    (∀ p, (createDirAll p t).2.IsTree ↔
      ¬ (t.IsAllowed p.components ∧ t.node? p.components = none ∧
        t.IsObstructed p.components)) ∧
    (∀ source target, (copyFile source target t).2.IsTree ↔
      ¬ (t.IsWritable source target ∧ t.HoldsNodes target.components)) ∧
    (∀ p, (removeDirAll p t).2.IsTree) :=
  ⟨fun _ => isTree_createDirAll_iff h, fun _ _ => isTree_copyFile_iff h, isTree_removeDirAll h⟩

/-- A file, and a directory with a file in it. -/
def fileAndDirectory : MemoryTree :=
  ((MemoryTree.empty ⟨5⟩).addFile (.ofString "/f") [1] ⟨1⟩).addFile (.ofString "/d/x") [2] ⟨1⟩

/-- A directory is made behind a file, and a file takes the place of a directory that holds one. Both
calls succeed, and both times the nodes left over lie in a file. -/
theorem operation_spoils_tree :
    fileAndDirectory.IsTree ∧
      (createDirAll (.ofString "/f/x") fileAndDirectory).1 = .ok () ∧
      ¬ (createDirAll (.ofString "/f/x") fileAndDirectory).2.IsTree ∧
      (copyFile (.ofString "/f") (.ofString "/d") fileAndDirectory).1 = .ok 1 ∧
      ¬ (copyFile (.ofString "/f") (.ofString "/d") fileAndDirectory).2.IsTree := by
  decide

theorem operation_keeps_fileAndDirectory :
    fileAndDirectory.IsTree ∧
      (createDirAll (.ofString "/d/y/z") fileAndDirectory).2.IsTree ∧
      (copyFile (.ofString "/f") (.ofString "/d/x") fileAndDirectory).2.IsTree ∧
      (removeDirAll (.ofString "/d") fileAndDirectory).2.IsTree := by
  have htree : fileAndDirectory.IsTree := by decide
  obtain ⟨hcreate, hcopy, hremove⟩ := operation_keeps_tree_iff htree
  have hfree : ¬ fileAndDirectory.IsObstructed (Path.ofString "/d/y/z").components :=
    not_isObstructed_iff.mpr (by decide)
  have hempty : ∀ e ∈ fileAndDirectory.nodes.entries,
      (Path.ofString "/d/x").components ∉ e.1.ancestors := by decide
  refine ⟨htree, (hcreate _).mpr fun h => hfree h.2.2, (hcopy _ _).mpr ?_, hremove _⟩
  rintro ⟨-, l, n, hn, hmem⟩
  exact hempty (l, n) (OrderedMap.get?_eq_some_iff.mp hn) hmem

end IncrementalBackup.MemoryTree
