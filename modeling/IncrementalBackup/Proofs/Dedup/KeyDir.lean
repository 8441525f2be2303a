import IncrementalBackup.Proofs.Dedup.Fill
import IncrementalBackup.Proofs.Dedup.Key
import IncrementalBackup.Proofs.Text.Decimal

/-!
# Directories of keys

Whatever a version is called and whatever can be read of its files, the key is one short name of safe
characters. So the directory of a key lies exactly two names below the root of the store: the name of
the package, then the key.
-/

namespace IncrementalBackup

namespace Dedup

/-! ## The length of a key -/

theorem length_sanitize_le (name : String) : (sanitize name).length ≤ maxTokenLength := by
  unfold sanitize
  split
  · decide
  · rw [String.length_ofList, List.length_take]
    exact Nat.min_le_left _ _

theorem length_versionText_le (set : ApkSet) : set.versionText.length ≤ 20 :=
  Decimal.length_ofInt_toInt set.versionCode

theorem length_digestSuffix_le (length : Nat) (bytes : List UInt8) :
    (digestSuffix length bytes).length ≤ length := by
  rw [digestSuffix, String.length_ofList, List.length_drop]
  omega

theorem length_pathsDigest_le (paths : List Path) : (pathsDigest paths).length ≤ 16 := by
  rw [pathsDigest, String.length_ofList, List.length_take]
  exact Nat.min_le_left _ _

theorem length_with_underscore (a b : String) :
    (a ++ "_" ++ b).length = a.length + 1 + b.length := by
  rw [String.length_append, String.length_append]
  rfl

variable {view : View} {set : ApkSet} {config : DedupConfig} {key : DedupKey}

theorem length_metadataKey_le (h : metadataKey? view set = some key)
    (hcount : set.filePaths.length < UInt64.size)
    (htotal : (set.filePaths.filterMap (sizeOf? view)).foldr (· + ·) 0 < UInt64.size) :
    key.text.length ≤ 62 := by
  have hfiles := List.length_filterMap_le (sizeOf? view) set.filePaths
  unfold metadataKey? at h
  split at h
  · cases h
  · obtain rfl := Option.some.inj h
    have hversion := length_versionText_le set
    have hnumber : (Decimal.ofNat (set.filePaths.filterMap (sizeOf? view)).length).length ≤ 20 :=
      Decimal.length_ofNat_of_lt_size (by omega)
    have hsize := Decimal.length_ofNat_of_lt_size htotal
    rw [length_with_underscore, length_with_underscore]
    omega

theorem length_contentKey_le (h : contentKey? view set config = some key) :
    key.text.length ≤ 136 := by
  unfold contentKey? at h
  split at h
  · cases h
  · obtain rfl := Option.some.inj h
    have hname : set.safeVersionName.length ≤ 50 := length_sanitize_le _
    have hversion := length_versionText_le set
    have hsuffix := length_digestSuffix_le (suffixLength config)
      (digestInput (set.filePaths.filterMap (contentOf? view config.hashPrefixBytes.toNat)))
    have hkept : suffixLength config ≤ 64 := Nat.min_le_right _ _
    rw [length_with_underscore, length_with_underscore]
    omega

theorem length_fallbackKey_le (set : ApkSet) : (fallbackKey set).text.length ≤ 97 := by
  have hname : set.safeVersionName.length ≤ 50 := length_sanitize_le _
  have hversion := length_versionText_le set
  have hmarker : DedupKey.fallbackMarker.length = 9 := by decide
  have hdigest := length_pathsDigest_le set.filePaths
  rw [fallbackKey, String.append_assoc, length_with_underscore, length_with_underscore,
    String.length_append]
  omega

theorem length_computeKey_le (config : DedupConfig) (hcount : set.filePaths.length < UInt64.size)
    (htotal : (set.filePaths.filterMap (sizeOf? view)).foldr (· + ·) 0 < UInt64.size) :
    (computeKey view set config).text.length ≤ 136 := by
  have hfallback := length_fallbackKey_le set
  unfold computeKey
  cases config.strategy with
  | metadata =>
    cases hkey : metadataKey? view set with
    | none =>
      change (fallbackKey set).text.length ≤ 136
      omega
    | some key =>
      have hlength := length_metadataKey_le hkey hcount htotal
      change key.text.length ≤ 136
      omega
  | contentHash =>
    cases hkey : contentKey? view set config with
    | none =>
      change (fallbackKey set).text.length ≤ 136
      omega
    | some key => exact length_contentKey_le hkey

end Dedup

namespace DedupStore

open Dedup

variable {s : DedupStore} {package : String} {view : View} {set : ApkSet} {config : DedupConfig}
  {packageDir dir : Path}

/-! ## Where the directory lies -/

theorem components_dedupDir (h : s.dedupDir package (computeKey view set config) = .ok dir) :
    ∃ name, (Path.ofString package).components = [.name name] ∧
      dir.components = s.root.components ++
        [.name name, .name (Utf8.encode (computeKey view set config).text)] := by
  obtain ⟨packageDir, hpackage, rfl⟩ := dedupDir_eq_ok_iff.mp h
  obtain ⟨name, hname, hcomponents⟩ := packageDir_eq_ok hpackage
  refine ⟨name, hname, ?_⟩
  rw [Path.components_join_of_eq_name (components_computeKey view set config), hcomponents,
    List.append_assoc]
  rfl

/-- If 64 bits suffice for the number of files and for their total size, a key is one name of at most
136 safe characters. So for every root and every package that has a directory, the directory of the
key lies in it, two names below the root. -/
theorem computeKey_stays_in_packageDir (view : View) (set : ApkSet) (config : DedupConfig)
    (hcount : set.filePaths.length < UInt64.size)
    (htotal : (set.filePaths.filterMap (sizeOf? view)).foldr (· + ·) 0 < UInt64.size) :
    ((computeKey view set config).path.components =
        [.name (Utf8.encode (computeKey view set config).text)] ∧
      (computeKey view set config).text ≠ "" ∧ (computeKey view set config).text ≠ "." ∧
      (computeKey view set config).text ≠ ".." ∧
      '/' ∉ (computeKey view set config).text.toList) ∧
    (∀ c ∈ (computeKey view set config).text.toList,
      c.isAlphanum = true ∨ c = '.' ∨ c = '_' ∨ c = '-') ∧
    (computeKey view set config).text.length ≤ 136 ∧
    ∀ (s : DedupStore) (package : String) (packageDir : Path),
      s.packageDir package = .ok packageDir →
      ∃ name dir, (Path.ofString package).components = [.name name] ∧
        packageDir.components = s.root.components ++ [.name name] ∧
        s.dedupDir package (computeKey view set config) = .ok dir ∧
        dir.components = s.root.components ++
          [.name name, .name (Utf8.encode (computeKey view set config).text)] := by
  have hkey := isKeyText_computeKey view set config
  have hne : ∀ other : String, '_' ∉ other.toList → (computeKey view set config).text ≠ other := by
    rintro other hother rfl
    exact hother hkey.underscore
  refine ⟨⟨components_computeKey view set config, hne "" (by decide), hne "." (by decide),
    hne ".." (by decide), fun hslash => absurd (hkey.safe _ hslash) (by decide)⟩, ?_,
    length_computeKey_le config hcount htotal, ?_⟩
  · intro c hc
    have hsafe := hkey.safe c hc
    simpa [isSafe, or_assoc] using hsafe
  · intro s package packageDir hpackage
    obtain ⟨name, hname, hcomponents⟩ := packageDir_eq_ok hpackage
    have hdir : s.dedupDir package (computeKey view set config) =
        .ok (packageDir.join (computeKey view set config).path) :=
      dedupDir_eq_ok_iff.mpr ⟨packageDir, hpackage, rfl⟩
    obtain ⟨own, hown, hplace⟩ := components_dedupDir hdir
    obtain rfl : name = own := by simpa using hname.symm.trans hown
    exact ⟨name, _, hname, hcomponents, hdir, hplace⟩

/-- A version whose name climbs, with the least of all version codes and every digit kept. -/
def climbingSet : ApkSet :=
  ⟨some "../../../etc/passwd", Int64.minValue, [.ofString "/a", .ofString ".."]⟩

def climbingStore : DedupStore :=
  ⟨.ofString "../s//", { DedupConfig.default with digestSuffixLen := 500 }⟩

def climbingTree : MemoryTree := (MemoryTree.empty ⟨0⟩).addFile (.ofString "/a") [1, 2, 3] ⟨1⟩

theorem computeKey_stays_in_packageDir_climbing :
    climbingSet.filePaths.length < UInt64.size ∧
      (climbingSet.filePaths.filterMap (sizeOf? climbingTree.view)).foldr (· + ·) 0 < UInt64.size ∧
      climbingStore.packageDir "x/." = .ok (.ofString "../s//x/.") ∧
      (computeKey climbingTree.view climbingSet climbingStore.config).text.length ≤ 136 ∧
      ∃ dir, climbingStore.dedupDir "x/."
          (computeKey climbingTree.view climbingSet climbingStore.config) = .ok dir ∧
        dir.components = [.parent, .name [0x73], .name [0x78],
          .name (Utf8.encode (computeKey climbingTree.view climbingSet climbingStore.config).text)] := by
  have hpackage : climbingStore.packageDir "x/." = .ok (.ofString "../s//x/.") := by decide
  obtain ⟨-, -, hlength, hdirs⟩ := computeKey_stays_in_packageDir climbingTree.view climbingSet
    climbingStore.config (by decide) (by decide)
  obtain ⟨name, dir, hname, -, hdir, hcomponents⟩ := hdirs climbingStore "x/." _ hpackage
  have hx : (Path.ofString "x/.").components = [.name [0x78]] := by decide
  obtain rfl : name = [0x78] := by simpa using hname.symm.trans hx
  exact ⟨by decide, by decide, hpackage, hlength, dir, hdir, hcomponents⟩

end DedupStore

end IncrementalBackup
