import IncrementalBackup.Proofs.Path.Components
import IncrementalBackup.Proofs.Text.Utf8

/-!
# Names as texts

A listing shows the names of a place as texts, and a text is a path again. A plain name is shown as
a plain name, and a name that is a text is shown as itself; so are the names in a path that is one.
-/

namespace IncrementalBackup.Path

theorem separator_mem_of_mem_encode_lossy {name : List UInt8}
    (h : separator ∈ Utf8.encode (Utf8.lossy name)) : separator ∈ name := by
  obtain ⟨c, hc, hmem⟩ := List.mem_flatMap.mp h
  have hsep : Utf8.encodeChar c = [separator] := Utf8.encodeChar_of_mem hmem (by decide)
  have hne : c ≠ Utf8.replacement := by
    rintro rfl
    revert hsep
    decide
  exact (Utf8.reads_parts name).mem_of_mem (Utf8.mem_lossy hc hne) hmem

theorem isPlain_encode_lossy {name : List UInt8} (h : IsPlain name) :
    IsPlain (Utf8.encode (Utf8.lossy name)) := by
  obtain ⟨hne, hsep, hdot, hdotDot⟩ := h
  -- A text without a replacement character is shown by no bytes but its own.
  have hshown : ∀ s : String, Utf8.replacement ∉ s.toList →
      Utf8.encode (Utf8.lossy name) = Utf8.encode s → name = Utf8.encode s := by
    intro s hs heq
    obtain rfl := Utf8.encode_injective heq
    exact (Utf8.encode_lossy_of_not_mem hs).symm
  refine ⟨fun h => ?_, fun h => hsep (separator_mem_of_mem_encode_lossy h), fun h => ?_,
    fun h => ?_⟩
  · exact hne (hshown "" (by decide) h)
  · exact hdot (hshown "." (by decide) h)
  · exact hdotDot (hshown ".." (by decide) h)

theorem separator_mem_encode_lossy {bytes : List UInt8} (h : separator ∈ bytes) :
    separator ∈ Utf8.encode (Utf8.lossy bytes) := by
  obtain ⟨before, after, rfl⟩ := List.append_of_mem h
  have hparts := Utf8.parts_append_cons (b := separator) (by decide) before after none nofun
  refine List.mem_flatMap.mpr ⟨'/', ?_, by decide⟩
  rw [Utf8.lossy, hparts, String.toList_ofList, List.map_append, List.map_cons]
  exact List.mem_append_right _ List.mem_cons_self

theorem isPlain_of_isPlain_encode_lossy {bytes : List UInt8}
    (h : IsPlain (Utf8.encode (Utf8.lossy bytes))) : IsPlain bytes := by
  refine ⟨?_, fun hsep => h.2.1 (separator_mem_encode_lossy hsep), ?_, ?_⟩
  · rintro rfl
    exact absurd h (by decide)
  · rintro rfl
    exact absurd h (by decide)
  · rintro rfl
    exact absurd h (by decide)

/-- A path that is shown as a plain name is that name. -/
theorem fileName?_of_display {p : Path} {name : List UInt8} (hname : IsPlain name)
    (h : p.display = Utf8.lossy name) : p.fileName? = some p.bytes := by
  have hplain : IsPlain p.bytes := by
    apply isPlain_of_isPlain_encode_lossy
    have hshown := isPlain_encode_lossy hname
    rwa [← h] at hshown
  rw [fileName?, components_of_isPlain hplain]
  rfl

theorem components_ofString_lossy {name : List UInt8} (h : IsPlain name) :
    (ofString (Utf8.lossy name)).components = [.name (Utf8.encode (Utf8.lossy name))] :=
  components_of_isPlain (isPlain_encode_lossy h)

theorem isValid_unsplit_iff {pieces : List (List UInt8)} :
    Utf8.isValid (unsplit pieces) = true ↔ ∀ piece ∈ pieces, Utf8.isValid piece = true := by
  induction pieces with
  | nil =>
    simp only [unsplit, List.not_mem_nil, false_implies, implies_true, iff_true]
    decide
  | cons first pieces ih =>
    cases pieces with
    | nil => simp [unsplit]
    | cons other pieces =>
      rw [unsplit, Utf8.isValid_append_cons (by decide), ih, List.forall_mem_cons (a := first)]
      exact List.cons_ne_nil other pieces

theorem isValid_of_mem_split {bytes piece : List UInt8} (h : Utf8.isValid bytes = true)
    (hpiece : piece ∈ split bytes) : Utf8.isValid piece = true := by
  rw [← unsplit_split bytes] at h
  exact isValid_unsplit_iff.mp h piece hpiece

theorem isValid_of_name_mem_components {s : String} {name : List UInt8}
    (h : .name name ∈ (ofString s).components) : Utf8.isValid name = true :=
  isValid_of_mem_split (Utf8.isValid_encode s) (mem_split_of_name_mem_components h).1

end IncrementalBackup.Path
