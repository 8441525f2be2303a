import IncrementalBackup.Proofs.Storage.MemoryTree

/-!
# Trees that agree at a place

Two trees agree at a place if they have the same node there, or none, and if both of them or none
allow access to it. What a tree tells about a path is then the same for both of them, and so is a
listing, if they agree at the places one component below as well.
-/

namespace IncrementalBackup.MemoryTree

open OrderedMap

structure AgreeAt (t t' : MemoryTree) (l : Location) : Prop where
  node? : t.node? l = t'.node? l
  isAllowed : t.IsAllowed l ↔ t'.IsAllowed l

variable {t t' : MemoryTree} {p : Path} {l : Location}

theorem AgreeAt.trans {t'' : MemoryTree} (h : AgreeAt t t' l) (h' : AgreeAt t' t'' l) :
    AgreeAt t t'' l := ⟨h.node?.trans h'.node?, h.isAllowed.trans h'.isAllowed⟩

theorem AgreeAt.node_eq (h : AgreeAt t t' p.components) : t.node p = t'.node p := by
  have hdenied : t.denied.contains p.components = t'.denied.contains p.components :=
    Bool.eq_iff_iff.mpr (Decidable.not_iff_not.mp h.isAllowed)
  rw [node, node, checkAccess, checkAccess, hdenied, h.node?]

theorem AgreeAt.metadata_eq (h : AgreeAt t t' p.components) : t.metadata p = t'.metadata p := by
  rw [metadata, metadata, h.node_eq]

/-- Nodes deeper than one component below a place do not show in what the place holds. -/
theorem children_congr (h : t.node? l = t'.node? l) (hsome : (t.node? l).isSome = true)
    (hbelow : ∀ c, t.node? (l ++ [c]) = t'.node? (l ++ [c])) : t.children l = t'.children l := by
  have hsorted : ∀ t : MemoryTree, (t.children l).Pairwise fun a b =>
      compareBy Prod.fst Location.compare a b = .lt := fun t => pairwise_children t l
  refine eq_of_mem_iff (hsorted t) (hsorted t') fun e => ?_
  rw [mem_children_iff hsome, mem_children_iff (h ▸ hsome)]
  refine and_congr_left fun hparent => ?_
  obtain ⟨c, -, hc⟩ := Location.parent?_eq_some_iff.mp hparent
  rw [hc, hbelow c]

theorem AgreeAt.readDir_eq (h : AgreeAt t t' p.components)
    (hbelow : ∀ c, AgreeAt t t' (p.components ++ [c])) : t.readDir p = t'.readDir p := by
  rw [readDir, readDir, ← h.node_eq]
  cases hnode : t.node p with
  | error e => rfl
  | ok n =>
    have hsome := Option.isSome_iff_exists.mpr ⟨n, (node_eq_ok_iff.mp hnode).2⟩
    rw [children_congr h.node? hsome fun c => (hbelow c).node?]

/-! ## What an operation leaves as it was -/

theorem agreeAt_put {n : MemoryNode} (hl : l ≠ p.components)
    (habove : ∀ a ∈ p.components.ancestors, (t.node? a).isSome = true) :
    t.AgreeAt (t.put p n) l := by
  refine ⟨?_, Iff.rfl⟩
  rw [node?_put, if_neg hl]
  split
  · rename_i hmem
    obtain ⟨m, hm⟩ := Option.isSome_iff_exists.mp (habove l hmem)
    rw [hm, Option.getD_some]
  · rfl

theorem agreeAt_deny (hl : l ≠ p.components) : t.AgreeAt (t.deny p) l := by
  refine ⟨rfl, Decidable.not_iff_not.mpr ?_⟩
  rw [deny, contains_iff, contains_iff, get?_insert, if_neg hl]

end IncrementalBackup.MemoryTree
