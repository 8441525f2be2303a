import IncrementalBackup.Dedup.Sanitize
import IncrementalBackup.Digest.Blake3
import IncrementalBackup.Digest.Hex
import IncrementalBackup.Path.Stored
import IncrementalBackup.Storage.Access

/-!
# Keys of package files

A set of package files gets a key from what can be read of it: from the number of files and their
total size, or from a digest of each file's size and first bytes. Files that cannot be read are left
out. If none can, the key is made from the paths, and is marked as a fallback.
-/

namespace IncrementalBackup

structure DedupKey where
  text : String
deriving DecidableEq, Repr

namespace DedupKey

def fallbackMarker : String := "fallback-"

def lastPart? (cs : List Char) : Option (List Char) :=
  if '_' ∈ cs then some (cs.reverse.takeWhile (· ≠ '_')).reverse else none

def isFallback (k : DedupKey) : Bool :=
  match lastPart? k.text.toList with
  | some part => fallbackMarker.toList.isPrefixOf part
  | none => false

def path (k : DedupKey) : Path := .ofString k.text

def compare (a b : DedupKey) : Ordering := Utf8.compare a.text b.text

instance : JsonFormat DedupKey where
  toJson? k := some (.ofString k.text)
  ofJson? v := (Json.text? v).map DedupKey.mk

end DedupKey

inductive DedupStrategy where
  | metadata
  | contentHash
deriving DecidableEq, Repr

namespace DedupStrategy

def name : DedupStrategy → String
  | metadata => "metadata"
  | contentHash => "content_hash"

def ofName? (s : String) : Option DedupStrategy :=
  [metadata, contentHash].find? (fun d => d.name == s)

instance : JsonFormat DedupStrategy where
  toJson? d := some (.ofString d.name)
  ofJson? := Json.choice? ofName?

end DedupStrategy

structure DedupConfig where
  strategy : DedupStrategy
  hashPrefixBytes : UInt64
  /-- How many digits of the digest are kept: at least one, at most all. -/
  digestSuffixLen : UInt64
  storeDir : String
deriving DecidableEq, Repr

namespace DedupConfig

def default : DedupConfig := ⟨.contentHash, 1048576, 16, "apks"⟩

instance : Inhabited DedupConfig := ⟨default⟩

instance : JsonFormat DedupConfig where
  toJson? c := do
    let strategy ← JsonFormat.toJson? c.strategy
    some (.record
      [("strategy", strategy), ("hash_prefix_bytes", .ofNat c.hashPrefixBytes.toNat),
        ("digest_suffix_len", .ofNat c.digestSuffixLen.toNat), ("store_dir", .ofString c.storeDir)])
  ofJson? v :=
    match Json.fields? ["strategy", "hash_prefix_bytes", "digest_suffix_len", "store_dir"] v with
    | some [strategy, hashPrefixBytes, digestSuffixLen, storeDir] => do
      some
        { strategy := ← Json.defaulted? default.strategy JsonFormat.ofJson? strategy
          hashPrefixBytes := ← Json.defaulted? default.hashPrefixBytes Json.uint64? hashPrefixBytes
          digestSuffixLen := ← Json.defaulted? default.digestSuffixLen Json.uint64? digestSuffixLen
          storeDir := ← Json.defaulted? default.storeDir Json.text? storeDir }
    | _ => none

end DedupConfig

/-- The files of one version of a package, the base first. -/
structure ApkSet where
  versionName : Option String
  versionCode : Int64
  filePaths : List Path
deriving DecidableEq, Repr

namespace ApkSet

def safeVersionName (s : ApkSet) : String := Dedup.sanitize (s.versionName.getD "")

def versionText (s : ApkSet) : String := Decimal.ofInt s.versionCode.toInt

instance : JsonFormat ApkSet where
  toJson? s := do
    let filePaths ← s.filePaths.mapM JsonFormat.toJson?
    some (.record
      [("version_name", .ofOption .ofString s.versionName),
        ("version_code", .integer s.versionCode.toInt), ("file_paths", .array filePaths)])
  ofJson? v :=
    match Json.fields? ["version_name", "version_code", "file_paths"] v with
    | some [versionName, versionCode, filePaths] => do
      some
        { versionName := ← Json.defaulted? none (Json.optional? Json.text?) versionName
          versionCode := ← Json.required? Json.int64? versionCode
          filePaths := ← Json.required? (Json.list? JsonFormat.ofJson?) filePaths }
    | _ => none

end ApkSet

namespace Dedup

def sizeOf? (view : View) (p : Path) : Option Nat :=
  match view.metadata p with
  | .ok m => if m.isDirectory then none else some m.size
  | .error _ => none

def contentOf? (view : View) (limit : Nat) (p : Path) : Option (Nat × List UInt8) :=
  match sizeOf? view p with
  | none => none
  | some size =>
    match view.readPrefix p limit with
    | .ok bytes => some (size, bytes)
    | .error _ => none

/-- The eight bytes of a size, the lowest first. -/
def sizeBytes (n : Nat) : List UInt8 :=
  (List.range 8).map (fun i => (n >>> (8 * i)).toUInt8)

/-- What is digested: sizes come first, so equal beginnings of different lengths stay apart. -/
def digestInput (contents : List (Nat × List UInt8)) : List UInt8 :=
  contents.flatMap (fun c => sizeBytes c.1 ++ c.2)

def suffixLength (c : DedupConfig) : Nat := min (max c.digestSuffixLen.toNat 1) 64

def digestSuffix (length : Nat) (bytes : List UInt8) : String :=
  let digits := Hex.ofBytes (Blake3.digest bytes)
  String.ofList (digits.drop (digits.length - length))

def metadataKey? (view : View) (set : ApkSet) : Option DedupKey :=
  match set.filePaths.filterMap (sizeOf? view) with
  | [] => none
  | sizes =>
    some ⟨set.versionText ++ "_" ++ Decimal.ofNat sizes.length ++ "_" ++ Decimal.ofNat (sizes.foldr (· + ·) 0)⟩

def contentKey? (view : View) (set : ApkSet) (config : DedupConfig) : Option DedupKey :=
  match set.filePaths.filterMap (contentOf? view config.hashPrefixBytes.toNat) with
  | [] => none
  | contents =>
    some ⟨set.safeVersionName ++ "_" ++ set.versionText ++ "_" ++
      digestSuffix (suffixLength config) (digestInput contents)⟩

def pathsDigest (paths : List Path) : String :=
  String.ofList ((Hex.ofBytes (Blake3.digest
    (Utf8.encode (String.intercalate "\n" (paths.map Path.display))))).take 16)

def fallbackKey (set : ApkSet) : DedupKey :=
  ⟨set.safeVersionName ++ "_" ++ set.versionText ++ "_" ++ DedupKey.fallbackMarker ++
    pathsDigest set.filePaths⟩

def computeKey (view : View) (set : ApkSet) (config : DedupConfig) : DedupKey :=
  let key? := match config.strategy with
    | .metadata => metadataKey? view set
    | .contentHash => contentKey? view set config
  key?.getD (fallbackKey set)

end Dedup

end IncrementalBackup
