import IncrementalBackup.Proofs.Dedup.Contributions

/-!
# Fallback keys

A key is known as a fallback by its last part, the one after the last underscore. That part has no
underscore in any key. In a key of sizes or of a digest it has no hyphen either, so it does not begin
with the marker of fallbacks, whatever the version is called.
-/

namespace IncrementalBackup

namespace DedupKey

theorem isFallback_append {front back : String} (h : '_' ∉ back.toList) :
    (DedupKey.mk (front ++ "_" ++ back)).isFallback =
      fallbackMarker.toList.isPrefixOf back.toList := by
  have hparts : (front ++ "_" ++ back).toList = front.toList ++ '_' :: back.toList := by simp
  rw [isFallback, hparts, lastPart?_append h]

/-- The marker has a hyphen in it. -/
theorem isFallback_append_eq_false {front back : String} (h : '_' ∉ back.toList)
    (hhyphen : '-' ∉ back.toList) : (DedupKey.mk (front ++ "_" ++ back)).isFallback = false := by
  rw [isFallback_append h, ← Bool.not_eq_true, List.isPrefixOf_iff_prefix]
  intro hmarker
  exact hhyphen (hmarker.subset (by decide))

example : (DedupKey.mk "fallback-1_2_fa").isFallback = false := by decide

end DedupKey

namespace Dedup

variable {view : View} {set : ApkSet} {config : DedupConfig} {p : Path} {key : DedupKey}

/-! ## What contributes -/

/-- A path contributes to a key if it has metadata and is no directory; to a digest, if its first
bytes can be read as well. -/
structure Contributes (view : View) (config : DedupConfig) (p : Path) : Prop where
  sized : ∃ m, view.metadata p = .ok m ∧ m.isDirectory = false
  readable : config.strategy = .contentHash →
    ∃ bytes, view.readPrefix p config.hashPrefixBytes.toNat = .ok bytes

theorem exists_sizeOf?_iff :
    (∃ size, sizeOf? view p = some size) ↔ ∃ m, view.metadata p = .ok m ∧ m.isDirectory = false := by
  rw [sizeOf?]
  cases view.metadata p with
  | error e => simp
  | ok m => cases hdir : m.isDirectory <;> simp [hdir]

theorem exists_contentOf?_iff {limit : Nat} :
    (∃ content, contentOf? view limit p = some content) ↔
      (∃ size, sizeOf? view p = some size) ∧ ∃ bytes, view.readPrefix p limit = .ok bytes := by
  rw [contentOf?]
  cases sizeOf? view p with
  | none => simp
  | some size => cases view.readPrefix p limit <;> simp

theorem sizeOf?_eq_none_iff (hstrategy : config.strategy = .metadata) :
    sizeOf? view p = none ↔ ¬ Contributes view config p := by
  rw [← not_iff_not, not_not, ← ne_eq, Option.ne_none_iff_exists', exists_sizeOf?_iff]
  exact ⟨fun h => ⟨h, fun hother => nomatch hstrategy.symm.trans hother⟩, Contributes.sized⟩

theorem contentOf?_eq_none_iff (hstrategy : config.strategy = .contentHash) :
    contentOf? view config.hashPrefixBytes.toNat p = none ↔ ¬ Contributes view config p := by
  rw [← not_iff_not, not_not, ← ne_eq, Option.ne_none_iff_exists', exists_contentOf?_iff,
    exists_sizeOf?_iff]
  exact ⟨fun h => ⟨h.1, fun _ => h.2⟩, fun h => ⟨h.sized, h.readable hstrategy⟩⟩

theorem metadataKey?_eq_none_iff (hstrategy : config.strategy = .metadata) :
    metadataKey? view set = none ↔ ∀ p ∈ set.filePaths, ¬ Contributes view config p := by
  simp only [← sizeOf?_eq_none_iff hstrategy, ← List.filterMap_eq_nil_iff]
  rw [metadataKey?]
  cases set.filePaths.filterMap (sizeOf? view) <;> simp

theorem contentKey?_eq_none_iff (hstrategy : config.strategy = .contentHash) :
    contentKey? view set config = none ↔ ∀ p ∈ set.filePaths, ¬ Contributes view config p := by
  simp only [← contentOf?_eq_none_iff hstrategy, ← List.filterMap_eq_nil_iff]
  rw [contentKey?]
  cases set.filePaths.filterMap (contentOf? view config.hashPrefixBytes.toNat) <;> simp

/-! ## The three forms of keys -/

theorem isFallback_metadataKey (h : metadataKey? view set = some key) : key.isFallback = false := by
  unfold metadataKey? at h
  split at h
  · cases h
  · obtain rfl := Option.some.inj h
    exact DedupKey.isFallback_append_eq_false (Decimal.underscore_not_mem_ofNat _)
      (Decimal.minus_not_mem_ofNat _)

theorem isFallback_contentKey (h : contentKey? view set config = some key) :
    key.isFallback = false := by
  unfold contentKey? at h
  split at h
  · cases h
  · obtain rfl := Option.some.inj h
    exact DedupKey.isFallback_append_eq_false (underscore_not_mem_digestSuffix _ _)
      fun h => forall_mem_digestSuffix (P := (· ≠ '-')) (by decide) _ _ _ h rfl

theorem isFallback_fallbackKey (set : ApkSet) : (fallbackKey set).isFallback = true := by
  have hdigest : '_' ∉ (DedupKey.fallbackMarker ++ pathsDigest set.filePaths).toList := by
    rw [String.toList_append, List.mem_append]
    rintro (h | h)
    · exact absurd h (by decide)
    · exact forall_mem_pathsDigest (P := (· ≠ '_')) (by decide) _ _ h rfl
  rw [fallbackKey, String.append_assoc, DedupKey.isFallback_append hdigest,
    List.isPrefixOf_iff_prefix, String.toList_append]
  exact List.prefix_append _ _

/-- A key is a fallback exactly when no path of its set contributes, under either strategy, with any
version and any number of digits. -/
theorem isFallback_computeKey_iff (view : View) (set : ApkSet) (config : DedupConfig) :
    (computeKey view set config).isFallback = true ↔
      ∀ p ∈ set.filePaths, ¬ Contributes view config p := by
  unfold computeKey
  cases hstrategy : config.strategy with
  | metadata =>
    rw [← metadataKey?_eq_none_iff hstrategy]
    cases hkey : metadataKey? view set with
    | none => simp [isFallback_fallbackKey]
    | some key => simp [isFallback_metadataKey hkey]
  | contentHash =>
    rw [← contentKey?_eq_none_iff hstrategy]
    cases hkey : contentKey? view set config with
    | none => simp [isFallback_fallbackKey]
    | some key => simp [isFallback_contentKey hkey]

end Dedup

end IncrementalBackup
