import IncrementalBackup.Proofs.Path.Parent
import IncrementalBackup.Proofs.Storage.MemoryTree

/-!
# Trees that can come about

A tree in memory starts empty and changes by its operations, one after the other. Whatever they are,
every node lies at a place that a path can name, and the places above it have nodes too.
-/

namespace IncrementalBackup

/-- A place that the components of a path can be: the root only at the front, and plain names. -/
structure Location.IsPlace (l : Location) : Prop where
  names : ∀ name, .name name ∈ l → Path.IsPlain name
  root : .root ∉ l.tail

namespace Location

theorem isPlace_components (p : Path) : IsPlace p.components where
  names _ h := Path.isPlain_of_name_mem_components h
  root := p.root_not_mem_tail_components

theorem IsPlace.of_above {l above : Location} (h : IsPlace l) (hle : above <+: l) :
    IsPlace above where
  names name hname := h.names name (hle.subset hname)
  root hroot := by
    obtain ⟨below, rfl⟩ := hle
    cases above with
    | nil => cases hroot
    | cons c above => exact h.root (List.mem_append_left below hroot)

/-- Only the root and the empty place lie in no other place. -/
theorem IsPlace.of_parent?_eq_none {l : Location} (h : IsPlace l) (hparent : l.parent? = none) :
    l = [] ∨ l = [.root] := by
  rcases List.eq_nil_or_concat l with rfl | ⟨above, c, rfl⟩
  · exact .inl rfl
  · cases above with
    | nil =>
      rw [parent?] at hparent
      cases c <;> simp_all
    | cons d above =>
      have hc : c ≠ .root := by
        rintro rfl
        exact h.root (by simp)
      rw [parent?_eq_some_iff.mpr ⟨c, hc, List.concat_eq_append⟩] at hparent
      cases hparent

/-- What lies above a path is the path above, or lies above that. -/
theorem eq_or_mem_ancestors_of_path {p : Path} {a : Location} (h : a ∈ p.components.ancestors) :
    a = (p.parent?.getD ⟨[]⟩).components ∨ a ∈ (p.parent?.getD ⟨[]⟩).components.ancestors := by
  have hparent := p.components_parent?
  cases hp : p.parent? with
  | none =>
    rw [hp] at hparent
    rcases (isPlace_components p).of_parent?_eq_none hparent.symm with hl | hl
    · rw [hl] at h
      cases h
    · rw [hl] at h
      cases h
  | some q =>
    rw [hp] at hparent
    obtain ⟨c, -, hc⟩ := parent?_eq_some_iff.mp hparent.symm
    obtain ⟨hne, hle, hproper⟩ := mem_ancestors_iff.mp h
    rw [hc] at hle hproper
    have hq : a <+: q.components := (List.prefix_concat_iff.mp hle).resolve_left hproper
    by_cases haq : a = q.components
    · exact .inl haq
    · exact .inr (mem_ancestors_iff.mpr ⟨hne, hq, haq⟩)

end Location

namespace MemoryTree

/-- One operation on a tree, or a change of the clock. -/
inductive Step (t : MemoryTree) : MemoryTree → Prop
  | addDirectory (p : Path) (modified : Instant) : Step t (t.addDirectory p modified)
  | addFile (p : Path) (data : List UInt8) (modified : Instant) : Step t (t.addFile p data modified)
  | addSymlink (p : Path) (modified : Instant) : Step t (t.addSymlink p modified)
  | setModified (p : Path) (modified : Instant) : Step t (t.setModified p modified)
  | setContents (p : Path) (data : List UInt8) : Step t (t.setContents p data)
  | deny (p : Path) : Step t (t.deny p)
  | allow (p : Path) : Step t (t.allow p)
  | createDirAll (p : Path) : Step t (createDirAll p t).2
  | copyFile (source target : Path) : Step t (copyFile source target t).2
  | removeDirAll (p : Path) : Step t (removeDirAll p t).2
  | clock (now : Instant) : Step t { t with now }

/-- The trees that operations make from an empty one. -/
inductive Reachable : MemoryTree → Prop
  | empty (now : Instant) : Reachable (empty now)
  | step {t t' : MemoryTree} (h : Reachable t) (hstep : Step t t') : Reachable t'

/-- Nodes lie at places, and below nodes. -/
structure WellFormed (t : MemoryTree) : Prop where
  place : ∀ {l n}, t.node? l = some n → l.IsPlace
  above : ∀ {l n}, t.node? l = some n → ∀ a ∈ l.ancestors, ∃ m, t.node? a = some m

variable {t : MemoryTree}

theorem WellFormed.of_nodes {t' : MemoryTree} (h : WellFormed t)
    (hnodes : ∀ l, (t'.node? l).isSome = (t.node? l).isSome) : WellFormed t' := by
  have hiff : ∀ l, (∃ n, t'.node? l = some n) ↔ ∃ n, t.node? l = some n := by
    intro l
    rw [← Option.isSome_iff_exists, ← Option.isSome_iff_exists, hnodes l]
  constructor
  · intro l n hn
    obtain ⟨m, hm⟩ := (hiff l).mp ⟨n, hn⟩
    exact h.place hm
  · intro l n hn a ha
    obtain ⟨m, hm⟩ := (hiff l).mp ⟨n, hn⟩
    exact (hiff a).mpr (h.above hm a ha)

theorem isSome_node?_put {p : Path} {n : MemoryNode} {l : Location} :
    (∃ m, (t.put p n).node? l = some m) ↔
      l = p.components ∨ l ∈ p.components.ancestors ∨ ∃ m, t.node? l = some m := by
  rw [node?_put]
  by_cases hl : l = p.components
  · simp [hl]
  · by_cases ha : l ∈ p.components.ancestors
    · simp [hl, ha]
    · simp [hl, ha]

theorem WellFormed.put (h : WellFormed t) (p : Path) (n : MemoryNode) : WellFormed (t.put p n) := by
  constructor
  · intro l m hm
    rcases isSome_node?_put.mp ⟨m, hm⟩ with rfl | ha | ⟨k, hk⟩
    · exact Location.isPlace_components p
    · exact (Location.isPlace_components p).of_above (Location.mem_ancestors_iff.mp ha).2.1
    · exact h.place hk
  · intro l m hm a ha
    rw [isSome_node?_put]
    rcases isSome_node?_put.mp ⟨m, hm⟩ with rfl | hl | ⟨k, hk⟩
    · exact .inr (.inl ha)
    · exact .inr (.inl (Location.mem_ancestors_trans ha hl))
    · exact .inr (.inr (h.above hk a ha))

theorem WellFormed.without (h : WellFormed t) (place : Location) : WellFormed (t.without place) := by
  constructor
  · intro l n hn
    rw [node?_without] at hn
    split at hn
    · cases hn
    · exact h.place hn
  · intro l n hn a ha
    rw [node?_without] at hn ⊢
    split at hn
    · cases hn
    · rename_i hl
      rw [if_neg fun hplace => hl (hplace.trans (Location.mem_ancestors_iff.mp ha).2.1)]
      exact h.above hn a ha

theorem WellFormed.above_of_parent? (h : WellFormed t) {target : Path} {above : MemoryNode}
    (habove : t.node? (target.parent?.getD ⟨[]⟩).components = some above) :
    ∀ a ∈ target.components.ancestors, ∃ m, t.node? a = some m := by
  intro a ha
  rcases Location.eq_or_mem_ancestors_of_path ha with rfl | ha
  · exact ⟨above, habove⟩
  · exact h.above habove a ha

/-- A file is added below a node, or at a place that lies in no other. -/
theorem WellFormed.withFile (h : WellFormed t) {target : Path} {above : MemoryNode}
    (habove : t.node? (target.parent?.getD ⟨[]⟩).components = some above) (data : List UInt8) :
    WellFormed (t.withFile target.components data) := by
  constructor
  · intro l n hn
    rw [node?_withFile] at hn
    split at hn
    · rename_i hl
      exact hl ▸ Location.isPlace_components target
    · exact h.place hn
  · intro l n hn a ha
    rw [node?_withFile] at hn
    have hnode : ∃ m, t.node? a = some m := by
      split at hn
      · rename_i hl
        exact h.above_of_parent? habove a (hl ▸ ha)
      · exact h.above hn a ha
    obtain ⟨m, hm⟩ := hnode
    rw [node?_withFile]
    split
    · exact ⟨_, rfl⟩
    · exact ⟨m, hm⟩

theorem wellFormed_of_step {t' : MemoryTree} (h : WellFormed t) (hstep : Step t t') :
    WellFormed t' := by
  cases hstep with
  | addDirectory p modified => exact h.put p _
  | addFile p data modified => exact h.put p _
  | addSymlink p modified => exact h.put p _
  | setModified p modified =>
    apply h.of_nodes
    intro l
    rw [node?_setModified]
    split <;> simp_all
  | setContents p data =>
    apply h.of_nodes
    intro l
    rw [node?_setContents]
    split <;> simp_all
  | deny p => exact h.of_nodes fun _ => rfl
  | allow p => exact h.of_nodes fun _ => rfl
  | createDirAll p =>
    rcases createDirAll_cases p t with ⟨e, heq⟩ | ⟨-, heq⟩ | ⟨-, -, heq⟩
    · rwa [heq]
    · rwa [heq]
    · rw [heq]
      exact h.put p _
  | copyFile source target =>
    rcases copyFile_cases source target t with ⟨e, heq⟩ | ⟨n, -, -, ⟨above, habove, -⟩, heq⟩
    · rwa [heq]
    · rw [heq]
      exact h.withFile habove n.data
  | removeDirAll p =>
    by_cases hdir : t.view.isDirectory p = true
    · rw [removeDirAll_of_isDirectory hdir]
      exact h.without p.components
    · obtain ⟨e, heq⟩ := removeDirAll_of_not_isDirectory hdir
      rwa [heq]
  | clock now => exact h.of_nodes fun _ => rfl

theorem Reachable.wellFormed (h : Reachable t) : WellFormed t := by
  induction h with
  | empty now => exact ⟨nofun, nofun⟩
  | step _ hstep ih => exact wellFormed_of_step ih hstep

end MemoryTree

end IncrementalBackup
