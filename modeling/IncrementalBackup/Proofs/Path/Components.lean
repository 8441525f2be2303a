import IncrementalBackup.Proofs.Path.Pieces

/-!
# Components of built paths

What joining a path with another one, or leaving out its last component, does to the components. The
components of a path are plain: no name in them could be read as anything but that name.
-/

namespace IncrementalBackup

namespace Path

/-- A byte string that is one name: neither empty nor cut by a separator, and none of the two names
that stand for something else. -/
def IsPlain (name : List UInt8) : Prop :=
  name ≠ [] ∧ separator ∉ name ∧ name ≠ dot ∧ name ≠ dotDot

instance (name : List UInt8) : Decidable (IsPlain name) :=
  inferInstanceAs (Decidable (name ≠ [] ∧ separator ∉ name ∧ name ≠ dot ∧ name ≠ dotDot))

theorem pieceComponent_of_isPlain {name : List UInt8} (h : IsPlain name) :
    pieceComponent name = some (.name name) := by
  obtain ⟨hne, -, hdot, hdotDot⟩ := h
  simp [pieceComponent, hne, hdot, hdotDot]

theorem pieceComponent_eq_some {piece : List UInt8} {c : Component}
    (h : pieceComponent piece = some c) (hsep : separator ∉ piece) :
    c = .parent ∨ (IsPlain piece ∧ c = .name piece) := by
  unfold pieceComponent at h
  split at h
  · cases h
  · rename_i hvoid
    obtain ⟨hne, hdot⟩ := not_or.mp hvoid
    split at h
    · exact .inl (Option.some.inj h).symm
    · rename_i hdotDot
      exact .inr ⟨⟨hne, hsep, hdot, hdotDot⟩, (Option.some.inj h).symm⟩

theorem ne_of_pieceComponent_eq_some {piece : List UInt8} {c : Component}
    (h : pieceComponent piece = some c) : c ≠ .root ∧ c ≠ .current := by
  unfold pieceComponent at h
  split at h
  · cases h
  · split at h <;> cases h <;> simp

theorem pieceComponent_eq_none_iff {piece : List UInt8} :
    pieceComponent piece = none ↔ piece = [] ∨ piece = dot := by
  unfold pieceComponent
  split
  · rename_i hvoid
    exact iff_of_true rfl hvoid
  · rename_i hvoid
    refine iff_of_false ?_ hvoid
    split <;> exact Option.some_ne_none _

def firstComponents (first : List UInt8) (rest : List (List UInt8)) : List Component :=
  if first = [] ∧ rest ≠ [] then [.root]
  else if first = dot then [.current]
  else (pieceComponent first).toList

/-- What the first piece contributes: nothing if it is all there is and empty, else one component. -/
theorem firstComponents_cases (first : List UInt8) (rest : List (List UInt8)) :
    (firstComponents first rest = [] ∧ first = [] ∧ rest = []) ∨
      ∃ c, firstComponents first rest = [c] ∧
        (c = .root ∨ c = .current ∨ pieceComponent first = some c) := by
  unfold firstComponents
  split
  · exact .inr ⟨.root, rfl, .inl rfl⟩
  · rename_i hroot
    split
    · exact .inr ⟨.current, rfl, .inr (.inl rfl)⟩
    · rename_i hdot
      cases hpiece : pieceComponent first with
      | none =>
        have hempty := (pieceComponent_eq_none_iff.mp hpiece).resolve_right hdot
        exact .inl ⟨rfl, hempty, by simpa [hempty] using hroot⟩
      | some c => exact .inr ⟨c, rfl, .inr (.inr rfl)⟩

theorem components_of_split {p : Path} {first : List UInt8} {rest : List (List UInt8)}
    (h : split p.bytes = first :: rest) :
    p.components = firstComponents first rest ++ rest.filterMap pieceComponent := by
  simp only [components, lead, h, firstComponents]
  split
  · rfl
  · split
    · rfl
    · cases hfirst : pieceComponent first <;> simp [hfirst]

/-- A piece that is not alone contributes the same in front of any other pieces. -/
theorem firstComponents_eq {first : List UInt8} {rest : List (List UInt8)}
    (rest' : List (List UInt8)) (h : first = [] → (rest = [] ↔ rest' = [])) :
    firstComponents first rest = firstComponents first rest' := by
  unfold firstComponents
  by_cases hfirst : first = []
  · simp [hfirst, h hfirst]
  · simp [hfirst]

theorem isAbsolute_iff {p : Path} : p.isAbsolute = true ↔ ∃ rest, p.bytes = separator :: rest := by
  cases h : p.bytes with
  | nil => simp [isAbsolute, h]
  | cons b rest => simp [isAbsolute, h]

/-- A relative path put behind another one contributes its components, but not the current
directory it may start with. -/
theorem filterMap_pieceComponent_split {p : Path} (h : ¬ p.isAbsolute = true) :
    (split p.bytes).filterMap pieceComponent = p.components.filter (· ≠ .current) := by
  obtain ⟨first, rest, hsplit⟩ := List.exists_cons_of_ne_nil (split_ne_nil p.bytes)
  have hfirst : ¬ (first = [] ∧ rest ≠ []) := by
    rintro ⟨rfl, hrest⟩
    have hbytes := unsplit_split p.bytes
    obtain ⟨piece, rest, rfl⟩ := List.exists_cons_of_ne_nil hrest
    rw [hsplit, unsplit] at hbytes
    · exact h (isAbsolute_iff.mpr ⟨_, hbytes.symm⟩)
    · exact List.cons_ne_nil piece rest
  have hkeep : ∀ pieces : List (List UInt8),
      (pieces.filterMap pieceComponent).filter (· ≠ .current) =
        pieces.filterMap pieceComponent := by
    intro pieces
    apply List.filter_eq_self.mpr
    intro c hc
    obtain ⟨piece, -, hpiece⟩ := List.mem_filterMap.mp hc
    exact decide_eq_true (ne_of_pieceComponent_eq_some hpiece).2
  rw [components_of_split hsplit, hsplit, List.filter_append, hkeep, firstComponents, if_neg hfirst]
  by_cases hdot : first = dot
  · subst hdot
    rfl
  · have htoList := hkeep [first]
    cases hpiece : pieceComponent first with
    | none => simp [hdot, hpiece]
    | some c =>
      simp only [List.filterMap_cons, hpiece, List.filterMap_nil] at htoList
      rw [if_neg hdot, Option.toList_some, htoList]
      simp [hpiece]

theorem join_of_isAbsolute {base name : Path} (h : name.isAbsolute = true) :
    base.join name = name := by simp [join, h]

theorem join_of_isEmpty {base name : Path} (h : base.bytes = []) : base.join name = name := by
  simp [join, h]

theorem components_join {base name : Path} (hbase : base.bytes ≠ [])
    (hname : ¬ name.isAbsolute = true) :
    (base.join name).components = base.components ++ name.components.filter (· ≠ .current) := by
  rw [← filterMap_pieceComponent_split hname]
  obtain ⟨front, last, hlast⟩ : ∃ front last, base.bytes = front ++ [last] :=
    ⟨_, _, (List.dropLast_concat_getLast hbase).symm⟩
  by_cases hsep : last = separator
  · -- The separator at the end of `base` is the one in front of `name`.
    have hjoin : (base.join name).bytes = front ++ separator :: name.bytes := by
      simp [join, hname, hlast, hsep]
    obtain ⟨first, rest, hfront⟩ := List.exists_cons_of_ne_nil (split_ne_nil front)
    have hsplit := split_append_separator front name.bytes
    have hsplitBase := split_append_separator front []
    rw [hfront, ← hjoin, List.cons_append] at hsplit
    rw [hfront, ← hsep, ← hlast, List.cons_append] at hsplitBase
    rw [components_of_split hsplit, components_of_split hsplitBase,
      firstComponents_eq (rest ++ split []) (by simp [split_ne_nil])]
    simp [split, splitFrom, pieceComponent]
  · have hjoin : (base.join name).bytes = base.bytes ++ separator :: name.bytes := by
      simp [join, hname, hlast, hsep]
    obtain ⟨first, rest, hfirst⟩ := List.exists_cons_of_ne_nil (split_ne_nil base.bytes)
    have hsplit := split_append_separator base.bytes name.bytes
    rw [hfirst, ← hjoin, List.cons_append] at hsplit
    have hnotEmpty : first = [] → rest ≠ [] := by
      rintro rfl rfl
      have hbytes := unsplit_split base.bytes
      rw [hfirst] at hbytes
      exact hbase hbytes.symm
    rw [components_of_split hsplit, components_of_split hfirst,
      firstComponents_eq rest (by
        intro h
        simp [split_ne_nil, hnotEmpty h])]
    simp

theorem components_of_isAbsolute {p : Path} (h : p.isAbsolute = true) :
    ∃ rest, p.components = .root :: rest := by
  obtain ⟨bytes, hbytes⟩ := isAbsolute_iff.mp h
  have hsplit : split p.bytes = [] :: split bytes := by
    rw [hbytes]
    exact split_append_of_not_mem List.not_mem_nil bytes
  rw [components_of_split hsplit, firstComponents, if_pos ⟨rfl, split_ne_nil bytes⟩]
  exact ⟨_, rfl⟩

/-- A path with only names as its components goes behind any other path. -/
theorem components_join_of_names {base p : Path} {names : List (List UInt8)}
    (h : p.components = names.map .name) :
    (base.join p).components = base.components ++ names.map .name := by
  by_cases hbase : base.bytes = []
  · rw [join_of_isEmpty hbase, h]
    obtain ⟨bytes⟩ := base
    obtain rfl : bytes = [] := hbase
    rfl
  · have hrelative : ¬ p.isAbsolute = true := by
      intro habs
      obtain ⟨rest, hrest⟩ := components_of_isAbsolute habs
      rw [h] at hrest
      cases names <;> cases hrest
    have hfilter : (names.map Component.name).filter (· ≠ .current) = names.map .name :=
      List.filter_eq_self.mpr (by simp)
    rw [components_join hbase hrelative, h, hfilter]

theorem components_join_of_eq_name {base p : Path} {name : List UInt8}
    (h : p.components = [.name name]) :
    (base.join p).components = base.components ++ [.name name] := by
  have hnames : p.components = [name].map .name := h
  exact components_join_of_names hnames

theorem components_of_isPlain {name : List UInt8} (h : IsPlain name) :
    (⟨name⟩ : Path).components = [.name name] := by
  have hsplit : split (⟨name⟩ : Path).bytes = [name] := split_of_not_mem h.2.1
  rw [components_of_split hsplit, firstComponents, if_neg (by simp), if_neg h.2.2.1,
    pieceComponent_of_isPlain h]
  rfl

theorem components_join_of_isPlain (base : Path) {name : List UInt8} (h : IsPlain name) :
    (base.join ⟨name⟩).components = base.components ++ [.name name] :=
  components_join_of_eq_name (components_of_isPlain h)

theorem mem_split_of_name_mem_components {p : Path} {name : List UInt8}
    (h : .name name ∈ p.components) : name ∈ split p.bytes ∧ IsPlain name := by
  obtain ⟨first, rest, hsplit⟩ := List.exists_cons_of_ne_nil (split_ne_nil p.bytes)
  have hpiece : ∀ piece ∈ first :: rest, pieceComponent piece = some (.name name) →
      name ∈ split p.bytes ∧ IsPlain name := by
    intro piece hmem hname
    have hsep := separator_not_mem_of_mem_split (hsplit ▸ hmem)
    rcases pieceComponent_eq_some hname hsep with h | ⟨hplain, h⟩
    · cases h
    · cases h
      exact ⟨hsplit ▸ hmem, hplain⟩
  rw [components_of_split hsplit] at h
  rcases List.mem_append.mp h with h | h
  · rcases firstComponents_cases first rest with ⟨hfirst, -⟩ | ⟨c, hfirst, hc⟩
    · simp [hfirst] at h
    · rw [hfirst] at h
      obtain rfl := List.mem_singleton.mp h
      rcases hc with hc | hc | hc
      · cases hc
      · cases hc
      · exact hpiece first List.mem_cons_self hc
  · obtain ⟨piece, hmem, hname⟩ := List.mem_filterMap.mp h
    exact hpiece piece (List.mem_cons_of_mem first hmem) hname

theorem isPlain_of_name_mem_components {p : Path} {name : List UInt8}
    (h : .name name ∈ p.components) : IsPlain name := (mem_split_of_name_mem_components h).2

theorem isPlain_of_fileName? {p : Path} {name : List UInt8} (h : p.fileName? = some name) :
    IsPlain name := by
  unfold fileName? Location.fileName? at h
  split at h
  · rename_i bytes hlast
    obtain rfl := Option.some.inj h
    exact isPlain_of_name_mem_components (List.mem_of_getLast? hlast)
  · cases h

theorem root_not_mem_tail_components (p : Path) : .root ∉ p.components.tail := by
  obtain ⟨first, rest, hsplit⟩ := List.exists_cons_of_ne_nil (split_ne_nil p.bytes)
  have hpieces : .root ∉ rest.filterMap pieceComponent := by
    intro h
    obtain ⟨piece, -, hpiece⟩ := List.mem_filterMap.mp h
    exact (ne_of_pieceComponent_eq_some hpiece).1 rfl
  rw [components_of_split hsplit]
  rcases firstComponents_cases first rest with ⟨hfirst, -⟩ | ⟨c, hfirst, -⟩
  · rw [hfirst, List.nil_append]
    exact fun hmem => hpieces (List.mem_of_mem_tail hmem)
  · rw [hfirst]
    exact hpieces

theorem components_eq_nil_iff {p : Path} : p.components = [] ↔ p.bytes = [] := by
  constructor
  · intro h
    obtain ⟨first, rest, hsplit⟩ := List.exists_cons_of_ne_nil (split_ne_nil p.bytes)
    rw [components_of_split hsplit] at h
    obtain ⟨hfirst, -⟩ := List.append_eq_nil_iff.mp h
    rcases firstComponents_cases first rest with ⟨-, rfl, rfl⟩ | ⟨c, hc, -⟩
    · rw [← unsplit_split p.bytes, hsplit]
      rfl
    · rw [hfirst] at hc
      cases hc
  · intro h
    obtain ⟨bytes⟩ := p
    obtain rfl : bytes = [] := h
    rfl

/-! ## Spellings of a name -/

/-- What may follow a name without a component of its own: nothing, or a separator and pieces that
are empty or `.`. -/
def IsVoidTail (tail : List UInt8) : Prop :=
  tail = [] ∨ ∃ rest, tail = separator :: rest ∧ ∀ piece ∈ split rest, pieceComponent piece = none

theorem IsVoidTail.eq_nil {tail : List UInt8} (h : IsVoidTail tail) (hsep : separator ∉ tail) :
    tail = [] := by
  obtain htail | ⟨rest, rfl, -⟩ := h
  · exact htail
  · exact absurd List.mem_cons_self hsep

/-- If one name is all that the pieces contribute, the first piece is that name. -/
theorem eq_name_of_firstComponents {first name : List UInt8} {rest : List (List UInt8)}
    (hsep : separator ∉ first)
    (h : firstComponents first rest ++ rest.filterMap pieceComponent = [.name name]) :
    first = name ∧ rest.filterMap pieceComponent = [] := by
  rcases firstComponents_cases first rest with ⟨hfirst, -, rfl⟩ | ⟨c, hfirst, hc⟩
  · rw [hfirst] at h
    cases h
  · rw [hfirst] at h
    obtain ⟨rfl, hvoid⟩ : c = .name name ∧ rest.filterMap pieceComponent = [] := by simpa using h
    rcases hc with hc | hc | hc
    · cases hc
    · cases hc
    · rcases pieceComponent_eq_some hc hsep with hc | ⟨-, hc⟩
      · cases hc
      · exact ⟨(Component.name.inj hc).symm, hvoid⟩

theorem components_eq_name_iff {p : Path} {name : List UInt8} :
    p.components = [.name name] ↔
      IsPlain name ∧ ∃ tail, IsVoidTail tail ∧ p.bytes = name ++ tail := by
  constructor
  · intro h
    have hplain : IsPlain name := isPlain_of_name_mem_components (p := p) (by simp [h])
    obtain ⟨first, rest, hsplit⟩ := List.exists_cons_of_ne_nil (split_ne_nil p.bytes)
    have hseps : ∀ piece ∈ first :: rest, separator ∉ piece := fun piece hpiece =>
      separator_not_mem_of_mem_split (hsplit ▸ hpiece)
    have hbytes := unsplit_split p.bytes
    rw [components_of_split hsplit] at h
    obtain ⟨rfl, hvoid⟩ := eq_name_of_firstComponents (hseps first List.mem_cons_self) h
    refine ⟨hplain, ?_⟩
    rw [hsplit] at hbytes
    cases rest with
    | nil => exact ⟨[], .inl rfl, by rw [← hbytes, unsplit, List.append_nil]⟩
    | cons piece rest =>
      refine ⟨separator :: unsplit (piece :: rest), .inr ⟨_, rfl, ?_⟩, hbytes.symm⟩
      rw [split_unsplit (List.cons_ne_nil piece rest) fun other hother =>
        hseps other (List.mem_cons_of_mem first hother)]
      exact List.filterMap_eq_nil_iff.mp hvoid
  · rintro ⟨hplain, tail, rfl | ⟨rest, rfl, hvoid⟩, hbytes⟩
    · obtain ⟨bytes⟩ := p
      obtain rfl : bytes = name := by simpa using hbytes
      exact components_of_isPlain hplain
    · have hsplit : split p.bytes = name :: split rest := by
        rw [hbytes, split_append_of_not_mem hplain.2.1]
      have hfirst : firstComponents name (split rest) = [.name name] := by
        rw [firstComponents, if_neg fun h => hplain.1 h.1, if_neg hplain.2.2.1,
          pieceComponent_of_isPlain hplain]
        rfl
      rw [components_of_split hsplit, hfirst, List.filterMap_eq_nil_iff.mpr hvoid]
      rfl

end Path

end IncrementalBackup
