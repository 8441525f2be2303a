import Mathlib.Algebra.Order.BigOperators.Group.List
import Mathlib.Algebra.Order.Group.Nat
import IncrementalBackup.Dedup.Store
import IncrementalBackup.Proofs.Dedup.Decoding
import IncrementalBackup.Proofs.Dedup.Key
import IncrementalBackup.Proofs.Storage.Reachable

/-!
# What a key stands for

A set of files contributes to its key the files that can be read, in their order, without their names
and places. Two keys that are no fallbacks are equal exactly when the contributions agree in what the
strategy looks at: number and total size, or the sizes and the bytes that the files begin with.
-/

namespace IncrementalBackup

namespace MemoryTree

/-- The bytes of a path that can be read as a file; a link is read as its own bytes. -/
def fileData? (t : MemoryTree) (p : Path) : Option (List UInt8) :=
  match t.node p with
  | .ok n => if n.kind = .directory then none else some n.data
  | .error _ => none

variable {t : MemoryTree} {p : Path}

theorem fileData?_eq_some_iff {data : List UInt8} :
    t.fileData? p = some data ↔
      ∃ n, t.node p = .ok n ∧ n.kind ≠ .directory ∧ n.data = data := by
  rw [fileData?]
  cases t.node p with
  | error e => simp
  | ok n => simp

theorem sizeOf?_view (t : MemoryTree) (p : Path) :
    Dedup.sizeOf? t.view p = (t.fileData? p).map List.length := by
  have hview : t.view.metadata p = t.metadata p := rfl
  rw [Dedup.sizeOf?, hview, metadata, fileData?]
  cases t.node p with
  | error e => rfl
  | ok n =>
    by_cases hdir : n.kind = .directory
    · simp [Except.map, Metadata.isDirectory, hdir]
    · simp [Except.map, Metadata.isDirectory, hdir]

theorem contentOf?_view (t : MemoryTree) (limit : Nat) (p : Path) :
    Dedup.contentOf? t.view limit p =
      (t.fileData? p).map fun data => (data.length, data.take limit) := by
  have hview : t.view.readPrefix p limit = t.readPrefix p limit := rfl
  rw [Dedup.contentOf?, sizeOf?_view, hview, readPrefix, fileData?]
  cases t.node p with
  | error e => rfl
  | ok n =>
    by_cases hdir : n.kind = .directory
    · simp [hdir]
    · simp [hdir]

/-- The files of a set that can be read, as their bytes. -/
def contributions (t : MemoryTree) (set : ApkSet) : List (List UInt8) :=
  set.filePaths.filterMap t.fileData?

def totalSize (t : MemoryTree) (set : ApkSet) : Nat :=
  ((t.contributions set).map List.length).foldr (· + ·) 0

/-- Of every file its size, and at most `limit` of the bytes it begins with. -/
def excerpts (t : MemoryTree) (limit : Nat) (set : ApkSet) : List (Nat × List UInt8) :=
  (t.contributions set).map fun data => (data.length, data.take limit)

end MemoryTree

namespace Dedup

open MemoryTree

variable {t other : MemoryTree} {set others : ApkSet} {config : DedupConfig} {limit : Nat}

/-! ## The text of a key -/

theorem filterMap_sizeOf?_view (t : MemoryTree) (set : ApkSet) :
    set.filePaths.filterMap (sizeOf? t.view) = (t.contributions set).map List.length := by
  rw [contributions, List.map_filterMap]
  exact List.filterMap_congr fun p _ => sizeOf?_view t p

theorem filterMap_contentOf?_view (t : MemoryTree) (limit : Nat) (set : ApkSet) :
    set.filePaths.filterMap (contentOf? t.view limit) = t.excerpts limit set := by
  rw [excerpts, contributions, List.map_filterMap]
  exact List.filterMap_congr fun p _ => contentOf?_view t limit p

/-- A tree makes a difference to a key only by what it contributes. -/
theorem computeKey_eq_of_contributions {t' : MemoryTree}
    (h : t'.contributions set = t.contributions set) :
    computeKey t'.view set config = computeKey t.view set config := by
  simp only [computeKey, metadataKey?, contentKey?, filterMap_sizeOf?_view,
    filterMap_contentOf?_view, excerpts, h]

theorem computeKey_of_metadata (hstrategy : config.strategy = .metadata)
    (hset : t.contributions set ≠ []) :
    computeKey t.view set config = ⟨set.versionText ++ "_" ++
      Decimal.ofNat (t.contributions set).length ++ "_" ++ Decimal.ofNat (t.totalSize set)⟩ := by
  have hsizes := filterMap_sizeOf?_view t set
  have hlength : ((t.contributions set).map List.length).length = (t.contributions set).length :=
    List.length_map _
  simp only [computeKey, hstrategy, metadataKey?]
  split
  · rename_i hnone
    rw [hsizes, List.map_eq_nil_iff] at hnone
    exact absurd hnone hset
  · rw [hsizes, hlength]
    rfl

theorem computeKey_of_contentHash (hstrategy : config.strategy = .contentHash)
    (hset : t.contributions set ≠ []) :
    computeKey t.view set config = ⟨set.safeVersionName ++ "_" ++ set.versionText ++ "_" ++
      digestSuffix (suffixLength config)
        (digestInput (t.excerpts config.hashPrefixBytes.toNat set))⟩ := by
  have hcontents := filterMap_contentOf?_view t config.hashPrefixBytes.toNat set
  simp only [computeKey, hstrategy, contentKey?]
  split
  · rename_i hnone
    rw [hcontents, excerpts, List.map_eq_nil_iff] at hnone
    exact absurd hnone hset
  · rw [hcontents]
    rfl

theorem versionText_inj : set.versionText = others.versionText ↔
    set.versionCode = others.versionCode := by
  rw [ApkSet.versionText, ApkSet.versionText, Decimal.ofInt_inj, Int64.toInt_inj]

theorem underscore_not_mem_versionText (set : ApkSet) : '_' ∉ set.versionText.toList :=
  Decimal.underscore_not_mem_ofInt _

theorem underscore_not_mem_digestSuffix (length : Nat) (bytes : List UInt8) :
    '_' ∉ (digestSuffix length bytes).toList := fun h =>
  forall_mem_digestSuffix (P := (· ≠ '_')) (by decide) length bytes _ h rfl

/-! ## Equal keys -/

/-- The digits that are kept of a digest tell two byte strings apart. -/
def TellsApart (config : DedupConfig) (bytes others : List UInt8) : Prop :=
  digestSuffix (suffixLength config) bytes = digestSuffix (suffixLength config) others →
    bytes = others

theorem isExcerpt_of_mem_excerpts (htotal : t.totalSize set < UInt64.size) :
    ∀ content ∈ t.excerpts limit set, IsExcerpt limit content := by
  intro content hcontent
  obtain ⟨data, hdata, rfl⟩ := List.mem_map.mp hcontent
  have hle : data.length ≤ t.totalSize set := List.le_sum_of_mem (List.mem_map_of_mem hdata)
  exact ⟨Nat.lt_of_le_of_lt hle htotal, List.length_take⟩

theorem computeKey_metadata_eq_iff (hstrategy : config.strategy = .metadata)
    (hset : t.contributions set ≠ []) (hothers : other.contributions others ≠ []) :
    computeKey t.view set config = computeKey other.view others config ↔
      set.versionCode = others.versionCode ∧
        (t.contributions set).length = (other.contributions others).length ∧
        t.totalSize set = other.totalSize others := by
  rw [computeKey_of_metadata hstrategy hset, computeKey_of_metadata hstrategy hothers,
    DedupKey.mk.injEq,
    DedupKey.append_underscore_inj (Decimal.underscore_not_mem_ofNat _)
      (Decimal.underscore_not_mem_ofNat _),
    DedupKey.append_underscore_inj (Decimal.underscore_not_mem_ofNat _)
      (Decimal.underscore_not_mem_ofNat _),
    versionText_inj, Decimal.ofNat_inj, Decimal.ofNat_inj, and_assoc]

/-- The digits have no underscore, and neither has the version code, so the name of the version is
what is left, underscores and digits in it or not. -/
theorem computeKey_contentHash_eq_iff (hstrategy : config.strategy = .contentHash)
    (hset : t.contributions set ≠ []) (hothers : other.contributions others ≠ []) :
    computeKey t.view set config = computeKey other.view others config ↔
      set.safeVersionName = others.safeVersionName ∧ set.versionCode = others.versionCode ∧
        digestSuffix (suffixLength config)
            (digestInput (t.excerpts config.hashPrefixBytes.toNat set)) =
          digestSuffix (suffixLength config)
            (digestInput (other.excerpts config.hashPrefixBytes.toNat others)) := by
  rw [computeKey_of_contentHash hstrategy hset, computeKey_of_contentHash hstrategy hothers,
    DedupKey.mk.injEq,
    DedupKey.append_underscore_inj (underscore_not_mem_digestSuffix _ _)
      (underscore_not_mem_digestSuffix _ _),
    DedupKey.append_underscore_inj (underscore_not_mem_versionText _)
      (underscore_not_mem_versionText _),
    versionText_inj, and_assoc]

/-- Paths that contribute nothing may stand anywhere among the others. -/
theorem contributions_congr {paths : List Path}
    (h : paths.filter (fun p => (t.fileData? p).isSome) =
      set.filePaths.filter (fun p => (t.fileData? p).isSome)) :
    t.contributions { set with filePaths := paths } = t.contributions set := by
  have hkept : ∀ l : List Path,
      l.filterMap t.fileData? = (l.filter fun p => (t.fileData? p).isSome).filterMap t.fileData? := by
    intro l
    rw [List.filterMap_filter]
    refine List.filterMap_congr fun p _ => ?_
    cases t.fileData? p <;> rfl
  rw [contributions, contributions, hkept, h, ← hkept]

theorem computeKey_congr {paths : List Path} (hset : t.contributions set ≠ [])
    (h : paths.filter (fun p => (t.fileData? p).isSome) =
      set.filePaths.filter (fun p => (t.fileData? p).isSome)) :
    computeKey t.view { set with filePaths := paths } config = computeKey t.view set config := by
  have hsame := contributions_congr h
  have hpaths : t.contributions { set with filePaths := paths } ≠ [] := hsame ▸ hset
  cases hstrategy : config.strategy with
  | metadata =>
    exact (computeKey_metadata_eq_iff hstrategy hpaths hset).mpr
      ⟨rfl, by rw [hsame], by rw [totalSize, totalSize, hsame]⟩
  | contentHash =>
    exact (computeKey_contentHash_eq_iff hstrategy hpaths hset).mpr
      ⟨rfl, rfl, by rw [excerpts, excerpts, hsame]⟩

/-- Keys of sets of which something can be read are equal exactly when the contributions agree: by
number and total size, or, as far as the digest tells them apart, by the sizes and first bytes in
order, and by the versions. Paths that cannot be read make no difference, wherever they stand. -/
theorem computeKey_eq_iff_same_contributions (t other : MemoryTree) (set others : ApkSet)
    (config : DedupConfig) (hset : t.contributions set ≠ [])
    (hothers : other.contributions others ≠ []) (htotal : t.totalSize set < UInt64.size)
    (hothersTotal : other.totalSize others < UInt64.size) :
    (config.strategy = .metadata →
      (computeKey t.view set config = computeKey other.view others config ↔
        set.versionCode = others.versionCode ∧
          (t.contributions set).length = (other.contributions others).length ∧
          t.totalSize set = other.totalSize others)) ∧
    (config.strategy = .contentHash →
      TellsApart config (digestInput (t.excerpts config.hashPrefixBytes.toNat set))
        (digestInput (other.excerpts config.hashPrefixBytes.toNat others)) →
      (computeKey t.view set config = computeKey other.view others config ↔
        set.safeVersionName = others.safeVersionName ∧ set.versionCode = others.versionCode ∧
          t.excerpts config.hashPrefixBytes.toNat set =
            other.excerpts config.hashPrefixBytes.toNat others)) ∧
    ∀ paths : List Path, paths.filter (fun p => (t.fileData? p).isSome) =
        set.filePaths.filter (fun p => (t.fileData? p).isSome) →
      computeKey t.view { set with filePaths := paths } config = computeKey t.view set config := by
  refine ⟨fun hstrategy => computeKey_metadata_eq_iff hstrategy hset hothers, ?_,
    fun paths hpaths => computeKey_congr hset hpaths⟩
  intro hstrategy htells
  rw [computeKey_contentHash_eq_iff hstrategy hset hothers]
  refine and_congr_right fun _ => and_congr_right fun _ => ⟨fun hdigits => ?_, fun h => by rw [h]⟩
  exact digestInput_inj (isExcerpt_of_mem_excerpts htotal)
    (isExcerpt_of_mem_excerpts hothersTotal) (htells hdigits)

/-- Two files, and files at other places that differ from them after the second byte only. -/
def packaged : MemoryTree :=
  ((MemoryTree.empty ⟨0⟩).addFile (.ofString "/a/base") [1, 2, 3] ⟨1⟩).addFile
    (.ofString "/a/split") [4] ⟨1⟩

def repackaged : MemoryTree :=
  (((MemoryTree.empty ⟨0⟩).addFile (.ofString "/z/one") [1, 2, 9] ⟨1⟩).addFile
    (.ofString "/z/two") [4] ⟨1⟩).addDirectory (.ofString "/z/lib") ⟨1⟩

def packagedSet : ApkSet :=
  ⟨some "1 2", 7, [.ofString "/a/base", .ofString "/a/split"]⟩

def repackagedSet : ApkSet :=
  ⟨some "1_2", 7, [.ofString "/z/lib", .ofString "/z/one", .ofString "/z/gone", .ofString "/z/two"]⟩

def swappedSet : ApkSet :=
  ⟨some "1_2", 7, [.ofString "/z/two", .ofString "/z/one"]⟩

def keyedByTwoBytes : DedupConfig := { DedupConfig.default with hashPrefixBytes := 2 }

theorem computeKey_of_repackaged :
    packaged.contributions packagedSet ≠ [] ∧ packaged.totalSize packagedSet < UInt64.size ∧
      repackaged.contributions repackagedSet ≠ [] ∧ repackaged.totalSize repackagedSet < UInt64.size ∧
      computeKey packaged.view packagedSet keyedByTwoBytes =
        computeKey repackaged.view repackagedSet keyedByTwoBytes ∧
      computeKey packaged.view packagedSet keyedByTwoBytes ≠
        computeKey repackaged.view swappedSet keyedByTwoBytes := by
  refine ⟨by decide, by decide, by decide, by decide, ?_, ?_⟩
  · have hsame := (computeKey_eq_iff_same_contributions packaged repackaged packagedSet
      repackagedSet keyedByTwoBytes (by decide) (by decide) (by decide) (by decide)).2.1 rfl
      (fun _ => by decide)
    exact hsame.mpr (by decide)
  · have hswapped := (computeKey_eq_iff_same_contributions packaged repackaged packagedSet
      swappedSet keyedByTwoBytes (by decide) (by decide) (by decide) (by decide)).2.1 rfl
      (fun hdigits => absurd hdigits (by decide +kernel))
    rw [Ne, hswapped]
    decide

end Dedup

end IncrementalBackup
