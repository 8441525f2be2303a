import IncrementalBackup.Path.Basic

/-!
# Byte strings and their pieces

Splitting at separators and putting separators between pieces undo each other: `unsplit_split` holds
for all byte strings, `split_unsplit` for all pieces without separators. So the pieces of two byte
strings with a separator between them are the pieces of the one and then the pieces of the other.
-/

namespace IncrementalBackup.Path

theorem splitFrom_append {piece : List UInt8} (h : separator ∉ piece) (current rest : List UInt8) :
    splitFrom current (piece ++ rest) = splitFrom (current ++ piece) rest := by
  induction piece generalizing current with
  | nil => simp
  | cons b piece ih =>
    have hb : b ≠ separator := fun he => h (he ▸ List.mem_cons_self)
    have hrest : separator ∉ piece := fun hm => h (List.mem_cons_of_mem b hm)
    rw [List.cons_append, splitFrom, if_neg hb, ih hrest, List.append_assoc, List.singleton_append]

theorem split_of_not_mem {piece : List UInt8} (h : separator ∉ piece) : split piece = [piece] := by
  have hsplit := splitFrom_append h [] []
  rw [List.append_nil, List.nil_append] at hsplit
  rw [split, hsplit, splitFrom]

theorem split_append_of_not_mem {piece : List UInt8} (h : separator ∉ piece) (rest : List UInt8) :
    split (piece ++ separator :: rest) = piece :: split rest := by
  rw [split, splitFrom_append h, List.nil_append, splitFrom, if_pos rfl, split]

theorem unsplit_append {before after : List (List UInt8)} (hbefore : before ≠ [])
    (hafter : after ≠ []) :
    unsplit (before ++ after) = unsplit before ++ separator :: unsplit after := by
  induction before with
  | nil => exact absurd rfl hbefore
  | cons piece before ih =>
    cases before with
    | nil =>
      obtain ⟨other, after, rfl⟩ := List.exists_cons_of_ne_nil hafter
      rfl
    | cons other before =>
      change piece ++ separator :: unsplit (other :: before ++ after) = _
      rw [ih (by simp)]
      simp [unsplit]

theorem split_unsplit {pieces : List (List UInt8)} (hne : pieces ≠ [])
    (hpieces : ∀ piece ∈ pieces, separator ∉ piece) : split (unsplit pieces) = pieces := by
  induction pieces with
  | nil => exact absurd rfl hne
  | cons piece pieces ih =>
    have hpiece := hpieces piece List.mem_cons_self
    cases pieces with
    | nil => exact split_of_not_mem hpiece
    | cons other pieces =>
      have hrest := ih (by simp) fun p hp => hpieces p (List.mem_cons_of_mem piece hp)
      rw [unsplit, split_append_of_not_mem hpiece, hrest]
      exact List.cons_ne_nil other pieces

theorem exists_unsplit_eq (bytes : List UInt8) :
    ∃ pieces, pieces ≠ [] ∧ (∀ piece ∈ pieces, separator ∉ piece) ∧ unsplit pieces = bytes := by
  induction bytes with
  | nil => exact ⟨[[]], by simp, by simp, rfl⟩
  | cons b bytes ih =>
    obtain ⟨pieces, hne, hpieces, rfl⟩ := ih
    by_cases hb : b = separator
    · subst hb
      refine ⟨[] :: pieces, by simp, ?_, ?_⟩
      · intro piece hpiece
        rcases List.mem_cons.mp hpiece with rfl | hpiece
        · simp
        · exact hpieces piece hpiece
      · exact unsplit_append (List.cons_ne_nil [] []) hne
    · obtain ⟨first, rest, rfl⟩ := List.exists_cons_of_ne_nil hne
      refine ⟨(b :: first) :: rest, by simp, ?_, ?_⟩
      · intro piece hpiece
        rcases List.mem_cons.mp hpiece with rfl | hpiece
        · have hfirst := hpieces first List.mem_cons_self
          simp [hfirst, Ne.symm hb]
        · exact hpieces piece (List.mem_cons_of_mem first hpiece)
      · cases rest <;> simp [unsplit]

theorem unsplit_split (bytes : List UInt8) : unsplit (split bytes) = bytes := by
  obtain ⟨pieces, hne, hpieces, rfl⟩ := exists_unsplit_eq bytes
  rw [split_unsplit hne hpieces]

theorem separator_not_mem_of_mem_split {bytes piece : List UInt8} (h : piece ∈ split bytes) :
    separator ∉ piece := by
  obtain ⟨pieces, hne, hpieces, rfl⟩ := exists_unsplit_eq bytes
  rw [split_unsplit hne hpieces] at h
  exact hpieces piece h

theorem split_ne_nil (bytes : List UInt8) : split bytes ≠ [] := by
  obtain ⟨pieces, hne, hpieces, rfl⟩ := exists_unsplit_eq bytes
  rwa [split_unsplit hne hpieces]

theorem split_append_separator (before after : List UInt8) :
    split (before ++ separator :: after) = split before ++ split after := by
  have hbytes := unsplit_append (split_ne_nil before) (split_ne_nil after)
  rw [unsplit_split, unsplit_split] at hbytes
  rw [← hbytes]
  refine split_unsplit (by simp [split_ne_nil]) ?_
  intro piece hpiece
  rcases List.mem_append.mp hpiece with h | h
  · exact separator_not_mem_of_mem_split h
  · exact separator_not_mem_of_mem_split h

end IncrementalBackup.Path
