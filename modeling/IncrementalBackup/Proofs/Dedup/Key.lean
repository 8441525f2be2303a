import IncrementalBackup.Dedup.Key
import IncrementalBackup.Proofs.Path.Names

/-!
# Keys are names

A key is put together from safe characters, with an underscore between its parts. So it is a single
name as a path, whatever the version is called: the directory of a key lies directly in that of its
package.
-/

namespace IncrementalBackup

namespace Dedup

/-- A text of letters, digits, dots, underscores and hyphens. -/
def IsSafeText (s : String) : Prop := ∀ c ∈ s.toList, isSafe c = true

instance (s : String) : Decidable (IsSafeText s) :=
  decidable_of_iff (s.toList.all isSafe = true) List.all_eq_true

theorem IsSafeText.append {a b : String} (ha : IsSafeText a) (hb : IsSafeText b) :
    IsSafeText (a ++ b) := by
  intro c hc
  rw [String.toList_append] at hc
  exact (List.mem_append.mp hc).elim (ha c) (hb c)

theorem isSafeText_ofList {cs : List Char} (h : ∀ c ∈ cs, isSafe c = true) :
    IsSafeText (String.ofList cs) := by
  intro c hc
  rw [String.toList_ofList] at hc
  exact h c hc

theorem isSafe_of_isDigit {c : Char} (h : c.isDigit = true) : isSafe c = true := by
  simp [isSafe, Char.isAlphanum, h]

theorem isSafeText_ofNat (n : Nat) : IsSafeText (Decimal.ofNat n) := by
  apply isSafeText_ofList
  intro c hc
  exact isSafe_of_isDigit (Nat.isDigit_of_mem_toDigits (by decide) (by decide) hc)

theorem isSafeText_ofInt (n : Int) : IsSafeText (Decimal.ofInt n) := by
  cases n with
  | ofNat n => exact isSafeText_ofNat n
  | negSucc n =>
    have hsign : IsSafeText "-" := by decide
    exact hsign.append (isSafeText_ofNat (n + 1))

/-- What holds of the sixteen digits holds of every character of a hexadecimal text. -/
theorem forall_mem_ofBytes {P : Char → Prop} (h : ∀ d < 16, P (Hex.digit d)) (bytes : List UInt8) :
    ∀ c ∈ Hex.ofBytes bytes, P c := by
  have hdigit : ∀ n, P (Hex.digit n) := by
    intro n
    have hmod : Hex.digit n = Hex.digit (n % 16) := by simp [Hex.digit]
    rw [hmod]
    exact h _ (Nat.mod_lt n (by decide))
  intro c hc
  obtain ⟨b, -, hc⟩ := List.mem_flatMap.mp hc
  simp only [Hex.ofByte, List.mem_cons, List.not_mem_nil, or_false] at hc
  rcases hc with rfl | rfl
  · exact hdigit _
  · exact hdigit _

theorem forall_mem_digestSuffix {P : Char → Prop} (h : ∀ d < 16, P (Hex.digit d)) (length : Nat)
    (bytes : List UInt8) : ∀ c ∈ (digestSuffix length bytes).toList, P c := by
  intro c hc
  rw [digestSuffix, String.toList_ofList] at hc
  exact forall_mem_ofBytes h _ c (List.mem_of_mem_drop hc)

theorem forall_mem_pathsDigest {P : Char → Prop} (h : ∀ d < 16, P (Hex.digit d))
    (paths : List Path) : ∀ c ∈ (pathsDigest paths).toList, P c := by
  intro c hc
  rw [pathsDigest, String.toList_ofList] at hc
  exact forall_mem_ofBytes h _ c (List.mem_of_mem_take hc)

theorem isSafe_safeChar (c : Char) : isSafe (safeChar c) = true := by
  unfold safeChar
  split
  · assumption
  · decide

theorem isSafeText_sanitize (name : String) : IsSafeText (sanitize name) := by
  unfold sanitize
  split
  · decide
  · apply isSafeText_ofList
    intro c hc
    obtain ⟨d, -, rfl⟩ := List.mem_map.mp (List.mem_of_mem_take hc)
    exact isSafe_safeChar d

theorem isSafeText_digestSuffix (length : Nat) (bytes : List UInt8) :
    IsSafeText (digestSuffix length bytes) := forall_mem_digestSuffix (by decide) length bytes

theorem isSafeText_pathsDigest (paths : List Path) : IsSafeText (pathsDigest paths) :=
  forall_mem_pathsDigest (by decide) paths

/-- A text made of safe parts with underscores between them. -/
structure IsKeyText (s : String) : Prop where
  safe : IsSafeText s
  underscore : '_' ∈ s.toList

theorem isKeyText_append {a b : String} (ha : IsSafeText a) (hb : IsSafeText b) :
    IsKeyText (a ++ "_" ++ b) where
  safe := (ha.append (by decide)).append hb
  underscore := by simp [String.toList_append]

variable {view : View} {set : ApkSet} {config : DedupConfig}

theorem isKeyText_metadataKey {key : DedupKey} (h : metadataKey? view set = some key) :
    IsKeyText key.text := by
  unfold metadataKey? at h
  split at h
  · cases h
  · obtain rfl := Option.some.inj h
    exact isKeyText_append (isKeyText_append (isSafeText_ofInt _) (isSafeText_ofNat _)).safe
      (isSafeText_ofNat _)

theorem isKeyText_contentKey {key : DedupKey} (h : contentKey? view set config = some key) :
    IsKeyText key.text := by
  unfold contentKey? at h
  split at h
  · cases h
  · obtain rfl := Option.some.inj h
    exact isKeyText_append (isKeyText_append (isSafeText_sanitize _) (isSafeText_ofInt _)).safe
      (isSafeText_digestSuffix _ _)

theorem isKeyText_fallbackKey (set : ApkSet) : IsKeyText (fallbackKey set).text := by
  have hmarker : IsSafeText DedupKey.fallbackMarker := by decide
  rw [fallbackKey, String.append_assoc]
  exact isKeyText_append (isKeyText_append (isSafeText_sanitize _) (isSafeText_ofInt _)).safe
    (hmarker.append (isSafeText_pathsDigest _))

theorem isKeyText_computeKey (view : View) (set : ApkSet) (config : DedupConfig) :
    IsKeyText (computeKey view set config).text := by
  unfold computeKey
  cases config.strategy with
  | metadata =>
    cases hkey : metadataKey? view set with
    | none => exact isKeyText_fallbackKey set
    | some key => exact isKeyText_metadataKey hkey
  | contentHash =>
    cases hkey : contentKey? view set config with
    | none => exact isKeyText_fallbackKey set
    | some key => exact isKeyText_contentKey hkey

theorem separator_not_mem_encode {s : String} (h : IsSafeText s) :
    Path.separator ∉ Utf8.encode s := by
  intro hmem
  obtain ⟨c, hc, hbyte⟩ := List.mem_flatMap.mp hmem
  have hwhole : Utf8.encodeChar c = Utf8.encodeChar '/' := Utf8.encodeChar_of_mem hbyte (by decide)
  have hslash : String.singleton c = String.singleton '/' :=
    Utf8.encode_injective (by simpa [Utf8.encode] using hwhole)
  obtain rfl : c = '/' := by simpa using congrArg String.toList hslash
  exact absurd (h _ hc) (by decide)

/-- A safe text is a name, but for the empty one and the two of dots that stand for places. -/
theorem isPlain_encode_iff {s : String} (h : IsSafeText s) :
    Path.IsPlain (Utf8.encode s) ↔ s ≠ "" ∧ s ≠ "." ∧ s ≠ ".." := by
  have hencode : ∀ other : String, Utf8.encode s ≠ Utf8.encode other ↔ s ≠ other := fun other =>
    not_congr ⟨fun heq => Utf8.encode_injective heq, congrArg Utf8.encode⟩
  change Utf8.encode s ≠ Utf8.encode "" ∧ Path.separator ∉ Utf8.encode s ∧
    Utf8.encode s ≠ Utf8.encode "." ∧ Utf8.encode s ≠ Utf8.encode ".." ↔ _
  rw [hencode, hencode, hencode, and_iff_right (separator_not_mem_encode h)]

theorem IsKeyText.isPlain {s : String} (h : IsKeyText s) : Path.IsPlain (Utf8.encode s) := by
  have hne : ∀ other : String, '_' ∉ other.toList → s ≠ other := by
    rintro other hother rfl
    exact hother h.underscore
  exact (isPlain_encode_iff h.safe).mpr ⟨hne "" (by decide), hne "." (by decide),
    hne ".." (by decide)⟩

/-- A key is one name, so its directory lies directly in the directory of the package. -/
theorem components_computeKey (view : View) (set : ApkSet) (config : DedupConfig) :
    (computeKey view set config).path.components =
      [.name (Utf8.encode (computeKey view set config).text)] :=
  Path.components_of_isPlain (isKeyText_computeKey view set config).isPlain

end Dedup

end IncrementalBackup
