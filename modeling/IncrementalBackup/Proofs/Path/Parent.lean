import Mathlib.Data.List.DropRight
import IncrementalBackup.Proofs.Path.Components

/-!
# The path above

Leaving out the last component of a path leaves out the last of its components: `components_parent?`
says so for every path, whatever separators and inner dots it is written with.
-/

namespace IncrementalBackup.Path

theorem dropVoid_eq_rdropWhile (pieces : List (List UInt8)) :
    dropVoid pieces = pieces.rdropWhile fun piece => (pieceComponent piece).isNone := rfl

theorem filterMap_dropVoid (pieces : List (List UInt8)) :
    (dropVoid pieces).filterMap pieceComponent = pieces.filterMap pieceComponent := by
  rw [dropVoid_eq_rdropWhile]
  induction pieces using List.reverseRecOn with
  | nil => rfl
  | append_singleton pieces piece ih =>
    cases hpiece : pieceComponent piece with
    | none =>
      rw [List.rdropWhile_concat_pos _ _ _ (by simp [hpiece]), ih]
      simp [hpiece]
    | some c => rw [List.rdropWhile_concat_neg _ _ _ (by simp [hpiece])]

/-- The last piece that is kept contributes a component, which is not the root. -/
theorem filterMap_eq_append_of_dropVoid {pieces : List (List UInt8)} (h : dropVoid pieces ≠ []) :
    ∃ c, pieces.filterMap pieceComponent =
      (dropVoid pieces).dropLast.filterMap pieceComponent ++ [c] ∧ c ≠ .root := by
  obtain ⟨c, hc⟩ : ∃ c, pieceComponent ((dropVoid pieces).getLast h) = some c := by
    have hlast := List.rdropWhile_last_not _ _ h
    exact Option.ne_none_iff_exists'.mp fun hnone => hlast (Option.isNone_iff_eq_none.mpr hnone)
  refine ⟨c, ?_, ?_⟩
  · have hkept := congrArg (List.filterMap pieceComponent) (List.dropLast_concat_getLast h)
    rw [List.filterMap_append, filterMap_dropVoid] at hkept
    rw [← hkept]
    simp [hc]
  · exact (ne_of_pieceComponent_eq_some hc).1

/-- The pieces that are left when the last piece that counts is left out. -/
theorem prefix_dropVoid_dropLast (pieces : List (List UInt8)) :
    dropVoid (dropVoid pieces).dropLast <+: pieces := by
  have hkept : dropVoid pieces <+: pieces := List.rdropWhile_prefix _ _
  have habove : dropVoid (dropVoid pieces).dropLast <+: (dropVoid pieces).dropLast :=
    List.rdropWhile_prefix _ _
  exact (habove.trans (List.dropLast_prefix _)).trans hkept

theorem lead_cases {p : Path} {first : List UInt8} {rest : List (List UInt8)}
    (h : split p.bytes = first :: rest) :
    (p.lead = ([.root], rest)) ∨ (p.lead = ([.current], rest)) ∨
      (p.lead = ([], first :: rest) ∧ first ≠ dot ∧ (first = [] → rest = [])) := by
  simp only [lead, h]
  split
  · exact .inl rfl
  · rename_i hroot
    split
    · exact .inr (.inl rfl)
    · rename_i hdot
      exact .inr (.inr ⟨rfl, hdot, fun hfirst => by simpa [hfirst] using hroot⟩)

theorem components_root_unsplit {pieces : List (List UInt8)}
    (h : ∀ piece ∈ pieces, separator ∉ piece) :
    (⟨separator :: unsplit pieces⟩ : Path).components =
      [.root] ++ pieces.filterMap pieceComponent := by
  by_cases hne : pieces = []
  · subst hne
    rfl
  · have hsplit : split (separator :: unsplit pieces) = [] :: pieces := by
      have hempty := split_append_of_not_mem List.not_mem_nil (unsplit pieces)
      rwa [split_unsplit hne h, List.nil_append] at hempty
    rw [components_of_split hsplit, firstComponents, if_pos ⟨rfl, hne⟩]

theorem components_current_unsplit {pieces : List (List UInt8)} (hne : pieces ≠ [])
    (h : ∀ piece ∈ pieces, separator ∉ piece) :
    (⟨dot ++ separator :: unsplit pieces⟩ : Path).components =
      [.current] ++ pieces.filterMap pieceComponent := by
  have hsplit : split (dot ++ separator :: unsplit pieces) = dot :: pieces := by
    rw [split_append_of_not_mem (by decide), split_unsplit hne h]
  rw [components_of_split hsplit, firstComponents, if_neg (by simp [dot]), if_pos rfl]

theorem components_unsplit {first : List UInt8} {rest : List (List UInt8)}
    (h : ∀ piece ∈ first :: rest, separator ∉ piece) (hdot : first ≠ dot)
    (hfirst : first = [] → rest = []) :
    (⟨unsplit (first :: rest)⟩ : Path).components =
      (first :: rest).filterMap pieceComponent := by
  have hsplit : split (unsplit (first :: rest)) = first :: rest :=
    split_unsplit (List.cons_ne_nil first rest) h
  rw [components_of_split hsplit, firstComponents, if_neg (fun hroot => hroot.2 (hfirst hroot.1)),
    if_neg hdot]
  cases hpiece : pieceComponent first <;> simp [hpiece]

/-- A path without its last component, as the components it starts with and the pieces it keeps. -/
theorem components_of_parent? {p above : Path} {start : List Component}
    {pieces : List (List UInt8)} (hlead : p.lead = (start, pieces)) (hkept : dropVoid pieces ≠ [])
    (habove : above.components = start ++
      (dropVoid (dropVoid pieces).dropLast).filterMap pieceComponent) :
    p.components.parent? = some above.components := by
  obtain ⟨c, hpieces, hc⟩ := filterMap_eq_append_of_dropVoid hkept
  have hcomponents : p.components = above.components ++ [c] := by
    rw [habove, filterMap_dropVoid, List.append_assoc, ← hpieces]
    simp [components, hlead]
  rw [Location.parent?, hcomponents, List.getLast?_concat]
  cases c <;> simp_all

theorem components_parent? (p : Path) : p.parent?.map components = p.components.parent? := by
  obtain ⟨first, rest, hsplit⟩ := List.exists_cons_of_ne_nil (split_ne_nil p.bytes)
  have hsep : ∀ piece ∈ first :: rest, separator ∉ piece := fun piece hpiece =>
    separator_not_mem_of_mem_split (hsplit ▸ hpiece)
  have hrest : ∀ piece ∈ dropVoid (dropVoid rest).dropLast, separator ∉ piece := fun piece hpiece =>
    hsep piece (List.mem_cons_of_mem first ((prefix_dropVoid_dropLast rest).subset hpiece))
  rcases lead_cases hsplit with hlead | hlead | ⟨hlead, hdot, hfirst⟩
  · by_cases hkept : dropVoid rest = []
    · have hvoid := filterMap_dropVoid rest
      rw [hkept] at hvoid
      simp [parent?, components, hlead, hkept, ← hvoid, Location.parent?]
    · rw [components_of_parent? hlead hkept (components_root_unsplit hrest)]
      simp [parent?, hlead, hkept]
  · by_cases hkept : dropVoid rest = []
    · have hvoid := filterMap_dropVoid rest
      rw [hkept] at hvoid
      have hcomponents : p.components = [.current] := by simp [components, hlead, ← hvoid]
      rw [hcomponents]
      simp only [parent?, hlead, hkept, Option.map_some]
      rfl
    · by_cases habove : dropVoid (dropVoid rest).dropLast = []
      · have hdot : p.components.parent? = some (Path.components ⟨dot⟩) :=
          components_of_parent? hlead hkept (by rw [habove]; rfl)
        rw [hdot]
        simp [parent?, hlead, hkept, habove]
      · rw [components_of_parent? hlead hkept (components_current_unsplit habove hrest)]
        simp [parent?, hlead, hkept]
  · by_cases hkept : dropVoid (first :: rest) = []
    · have hvoid := filterMap_dropVoid (first :: rest)
      rw [hkept] at hvoid
      simp [parent?, components, hlead, hkept, ← hvoid, Location.parent?]
    · have hle := prefix_dropVoid_dropLast (first :: rest)
      have hcomponents : (⟨unsplit (dropVoid (dropVoid (first :: rest)).dropLast)⟩ : Path).components =
          [] ++ (dropVoid (dropVoid (first :: rest)).dropLast).filterMap pieceComponent := by
        cases habove : dropVoid (dropVoid (first :: rest)).dropLast with
        | nil => rfl
        | cons other above =>
          rw [habove] at hle
          obtain ⟨rfl, htail⟩ := List.cons_prefix_cons.mp hle
          refine components_unsplit (fun piece hpiece => hsep piece (hle.subset hpiece)) hdot ?_
          intro hempty
          exact List.prefix_nil.mp (hfirst hempty ▸ htail)
      rw [components_of_parent? hlead hkept hcomponents]
      simp [parent?, hlead, hkept]

end IncrementalBackup.Path
