import IncrementalBackup.Proofs.Dedup.KeyDir

/-!
# Sanitized names

A safe text that is neither empty nor too long is left as it is, so sanitizing again changes nothing.
What is sanitized is a single name as a path, with two exceptions: a dot and two dots have only safe
characters, and stay what they are.
-/

namespace IncrementalBackup.Dedup

variable {name s : String} {c d : Char}

/-! ## Characters -/

theorem toNat_bounds_of_isAlphanum (h : c.isAlphanum = true) : 48 ≤ c.toNat ∧ c.toNat ≤ 122 := by
  rcases (Bool.or_eq_true _ _).mp h with h | h
  · rcases (Bool.or_eq_true _ _).mp h with h | h
    · obtain ⟨hlow, hhigh⟩ : 'A'.val ≤ c.val ∧ c.val ≤ 'Z'.val := of_decide_eq_true h
      have hlow : 65 ≤ c.toNat := UInt32.le_iff_toNat_le.mp hlow
      have hhigh : c.toNat ≤ 90 := UInt32.le_iff_toNat_le.mp hhigh
      omega
    · obtain ⟨hlow, hhigh⟩ := (Bool.and_eq_true _ _).mp h
      have hlow : 97 ≤ c.toNat := UInt32.le_iff_toNat_le.mp (of_decide_eq_true hlow)
      have hhigh : c.toNat ≤ 122 := UInt32.le_iff_toNat_le.mp (of_decide_eq_true hhigh)
      omega
  · obtain ⟨hlow, hhigh⟩ := Char.isDigit_iff_toNat.mp h
    exact ⟨hlow, hhigh.trans (by decide)⟩

/-- All safe characters lie between the blank U+0020 and the next one, U+0085. -/
theorem isBlank_of_isSafe (h : isSafe c = true) : Text.isBlank c = false := by
  have hbounds : 0x20 < c.toNat ∧ c.toNat < 0x85 := by
    simp only [isSafe, Bool.or_eq_true, beq_iff_eq, or_assoc] at h
    rcases h with h | rfl | rfl | rfl
    · have halphanum := toNat_bounds_of_isAlphanum h
      omega
    · decide
    · decide
    · decide
  simp only [Text.isBlank, Text.blankRanges, List.any_cons, List.any_nil, Bool.or_false,
    Bool.or_eq_false_iff, Bool.and_eq_false_iff, decide_eq_false_iff_not]
  omega

theorem safeChar_of_isSafe (h : isSafe c = true) : safeChar c = c := if_pos h

theorem eq_of_safeChar_eq (h : safeChar c = d) (hd : d ≠ '_') : c = d := by
  unfold safeChar at h
  split at h
  · exact h
  · exact absurd h.symm hd

/-! ## Texts -/

theorem toList_sanitize (h : ¬ name.toList.all Text.isBlank = true) :
    (sanitize name).toList = (name.toList.map safeChar).take maxTokenLength := by
  rw [sanitize, if_neg h, String.toList_ofList]

theorem sanitize_ne_empty (name : String) : sanitize name ≠ "" := by
  by_cases hblank : name.toList.all Text.isBlank = true
  · rw [sanitize, if_pos hblank]
    decide
  · intro hempty
    have hlist := toList_sanitize hblank
    rw [hempty] at hlist
    obtain hnone | hzero := List.take_eq_nil_iff.mp hlist.symm
    · cases hnone
    · rw [List.map_eq_nil_iff.mp hzero] at hblank
      exact hblank rfl

/-- The first character of a safe text is no blank, and none of its characters is replaced. -/
theorem sanitize_of_isSafeText (hsafe : IsSafeText s) (hne : s ≠ "")
    (hlength : s.length ≤ maxTokenLength) : sanitize s = s := by
  have hblank : ¬ s.toList.all Text.isBlank = true := by
    intro hall
    obtain ⟨c, cs, hcs⟩ := List.exists_cons_of_ne_nil fun hnil =>
      hne (String.toList_eq_nil_iff.mp hnil)
    have hc : c ∈ s.toList := hcs ▸ List.mem_cons_self
    have hcBlank := List.all_eq_true.mp hall c hc
    rw [isBlank_of_isSafe (hsafe c hc)] at hcBlank
    cases hcBlank
  have hmap : s.toList.map safeChar = s.toList :=
    (List.map_congr_left fun c hc => safeChar_of_isSafe (hsafe c hc)).trans (List.map_id _)
  apply String.toList_inj.mp
  rw [toList_sanitize hblank, hmap, List.take_of_length_le hlength]

theorem sanitize_sanitize (name : String) : sanitize (sanitize name) = sanitize name :=
  sanitize_of_isSafeText (isSafeText_sanitize name) (sanitize_ne_empty name)
    (length_sanitize_le name)

/-- A short text without an underscore is what is left of no other text. -/
theorem eq_of_sanitize_eq (h : sanitize name = s) (hlength : s.length < maxTokenLength)
    (hunderscore : '_' ∉ s.toList) (hunknown : s ≠ "unknown") : name = s := by
  by_cases hblank : name.toList.all Text.isBlank = true
  · rw [sanitize, if_pos hblank] at h
    exact absurd h.symm hunknown
  · have hlist := toList_sanitize hblank
    rw [h] at hlist
    have hwhole : (name.toList.map safeChar).length ≤ maxTokenLength := by
      have hmin := congrArg List.length hlist
      rw [List.length_take, String.length_toList] at hmin
      omega
    rw [List.take_of_length_le hwhole] at hlist
    have hkept : ∀ c ∈ name.toList, safeChar c = c := by
      intro c hc
      have hmem : safeChar c ∈ s.toList := hlist ▸ List.mem_map_of_mem hc
      exact (eq_of_safeChar_eq rfl (ne_of_mem_of_not_mem hmem hunderscore)).symm
    rw [List.map_congr_left hkept, List.map_id'] at hlist
    exact (String.toList_inj.mp hlist).symm

theorem sanitize_eq_dots_iff (hs : s = "." ∨ s = "..") : sanitize name = s ↔ name = s := by
  constructor
  · intro h
    rcases hs with rfl | rfl
    · exact eq_of_sanitize_eq h (by decide) (by decide) (by decide)
    · exact eq_of_sanitize_eq h (by decide) (by decide) (by decide)
  · rintro rfl
    rcases hs with rfl | rfl <;> decide

/-! ## Paths -/

/-- As a path a text is a single name, and leads from every directory to a place directly in it. -/
structure NamesChild (s : String) : Prop where
  component : (Path.ofString s).components = [.name (Utf8.encode s)]
  child : ∀ dir : Path,
    (dir.join (.ofString s)).components = dir.components ++ [.name (Utf8.encode s)]

theorem namesChild_iff : NamesChild s ↔ Path.IsPlain (Utf8.encode s) := by
  constructor
  · intro h
    exact Path.isPlain_of_name_mem_components (h.component ▸ List.mem_singleton_self _)
  · intro h
    exact ⟨Path.components_of_isPlain h, fun dir => Path.components_join_of_isPlain dir h⟩

/-- Whatever a version is called, what is made of the name is not empty, has at most fifty characters,
all of them safe, and is left as it is if it is sanitized again. It is the name of a place directly in
every directory, unless the version is called `.` or `..`. -/
theorem sanitize_names_child_iff (name : String) :
    sanitize name ≠ "" ∧ (sanitize name).length ≤ 50 ∧
      (∀ c ∈ (sanitize name).toList, c.isAlphanum = true ∨ c = '.' ∨ c = '_' ∨ c = '-') ∧
      sanitize (sanitize name) = sanitize name ∧
      (NamesChild (sanitize name) ↔ name ≠ "." ∧ name ≠ "..") := by
  refine ⟨sanitize_ne_empty name, length_sanitize_le name, ?_, sanitize_sanitize name, ?_⟩
  · intro c hc
    have hsafe := isSafeText_sanitize name c hc
    simpa [isSafe, or_assoc] using hsafe
  · rw [namesChild_iff, isPlain_encode_iff (isSafeText_sanitize name),
      and_iff_right (sanitize_ne_empty name), ne_eq, sanitize_eq_dots_iff (.inl rfl), ne_eq,
      sanitize_eq_dots_iff (.inr rfl)]

/-- Two dots stay two dots, and lead out of a directory. -/
theorem sanitize_two_dots :
    sanitize ".." = ".." ∧ (Path.ofString (sanitize "..")).components = [.parent] ∧
      ((Path.ofString "/s/p").join (.ofString (sanitize ".."))).components =
        (Path.ofString "/s/p").components ++ [.parent] ∧
      ¬ NamesChild (sanitize "..") := by
  refine ⟨by decide, by decide, by decide, fun h => ?_⟩
  exact absurd h.component (by decide)

theorem sanitize_climbing_names_child :
    sanitize "../版本 2/" = "..____2_" ∧ (sanitize "../版本 2/").length ≤ 50 ∧
      sanitize (sanitize "../版本 2/") = sanitize "../版本 2/" ∧
      NamesChild (sanitize "../版本 2/") := by
  obtain ⟨-, hlength, -, hagain, hchild⟩ := sanitize_names_child_iff "../版本 2/"
  exact ⟨by decide, hlength, hagain, hchild.mpr (by decide)⟩

end IncrementalBackup.Dedup
