import IncrementalBackup.Proofs.Path.Names
import IncrementalBackup.Proofs.Path.Parent

/-!
# Paths that are text

Joining paths that are text, and leaving out the last component of one, gives text again.
-/

namespace IncrementalBackup.Path

def IsText (p : Path) : Prop := Utf8.isValid p.bytes = true

variable {p base name : Path}

theorem isText_ofString (s : String) : IsText (ofString s) := Utf8.isValid_encode s

instance (p : Path) : Decidable (IsText p) :=
  inferInstanceAs (Decidable (Utf8.isValid p.bytes = true))

theorem isText_here : IsText here := by decide

theorem IsText.join (hbase : IsText base) (hname : IsText name) : IsText (base.join name) := by
  unfold Path.join
  split
  · exact hname
  · split
    · exact hname
    · rename_i last hlast
      split
      · rename_i hsep
        obtain ⟨before, hbytes⟩ := List.getLast?_eq_some_iff.mp hlast
        rw [IsText, hbytes, hsep, Utf8.isValid_append_cons (by decide)] at hbase
        rw [IsText, hbytes, hsep, List.append_assoc, List.singleton_append]
        exact (Utf8.isValid_append_cons (by decide)).mpr ⟨hbase.1, hname⟩
      · exact (Utf8.isValid_append_cons (by decide)).mpr ⟨hbase, hname⟩

theorem IsText.parent? (h : IsText p) {above : Path} (habove : p.parent? = some above) :
    IsText above := by
  obtain ⟨first, rest, hsplit⟩ := List.exists_cons_of_ne_nil (split_ne_nil p.bytes)
  have hpieces : ∀ piece ∈ p.lead.2, Utf8.isValid piece = true := by
    intro piece hpiece
    refine isValid_of_mem_split h (hsplit ▸ ?_)
    rcases lead_cases hsplit with hlead | hlead | ⟨hlead, -⟩
    · exact List.mem_cons_of_mem first (by simpa [hlead] using hpiece)
    · exact List.mem_cons_of_mem first (by simpa [hlead] using hpiece)
    · simpa [hlead] using hpiece
  have hunsplit : Utf8.isValid (unsplit (dropVoid (dropVoid p.lead.2).dropLast)) = true :=
    isValid_unsplit_iff.mpr fun piece hpiece =>
      hpieces piece ((prefix_dropVoid_dropLast p.lead.2).subset hpiece)
  have hseparator : ∀ before bytes, Utf8.isValid before = true → Utf8.isValid bytes = true →
      IsText ⟨before ++ separator :: bytes⟩ := fun before bytes hbefore hbytes =>
    (Utf8.isValid_append_cons (by decide)).mpr ⟨hbefore, hbytes⟩
  unfold Path.parent? at habove
  rcases hlead : p.lead with ⟨start, pieces⟩
  rw [hlead] at habove hunsplit
  dsimp only at habove hunsplit
  split at habove
  · obtain rfl := Option.some.inj habove
    exact (by decide : IsText ⟨[]⟩)
  · cases habove
  · split at habove
    · obtain rfl := Option.some.inj habove
      exact hseparator [] _ rfl hunsplit
    · obtain rfl := Option.some.inj habove
      exact isText_here
    · obtain rfl := Option.some.inj habove
      exact hseparator dot _ isText_here hunsplit
    · obtain rfl := Option.some.inj habove
      exact hunsplit

end IncrementalBackup.Path
