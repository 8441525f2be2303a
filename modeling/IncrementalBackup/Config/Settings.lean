import IncrementalBackup.Dedup.Key
import IncrementalBackup.Scan.Options

/-!
# Settings

The settings of the program with the version of their form. Older forms differ in what they may leave
out, and that is filled in when they are read; so only the number of the version is raised.
-/

namespace IncrementalBackup

structure Settings where
  version : UInt32
  dataDir : Path
  logLevel : String
  scan : ScanOptions
  dedup : DedupConfig
deriving DecidableEq, Repr

inductive ConfigError where
  | noDataDir
  | unknownVersion (version : UInt32)
  | malformed
  | storage (failure : StorageFailure)
deriving DecidableEq, Repr

namespace ConfigError

def message : ConfigError → String
  | noDataDir => "could not determine a data directory for this platform"
  | unknownVersion version => "unknown config version: " ++ Decimal.ofNat version.toNat
  | malformed => "malformed config:"
  | storage failure => failure.message

end ConfigError

namespace Settings

def targetVersion : UInt32 := 2

def default (dataDir : Path) : Settings := ⟨targetVersion, dataDir, "info", .default, .default⟩

def needsMigration (s : Settings) : Bool := s.version < targetVersion

def migrate (s : Settings) : Except ConfigError Settings :=
  if targetVersion < s.version then .error (.unknownVersion s.version)
  else .ok { s with version := targetVersion }

def fileName : Path := .ofString "appvault.json"

def filePath (s : Settings) : Path := s.dataDir.join fileName

def logsDir (s : Settings) : Path := s.dataDir.join (.ofString "logs")

def dedupRoot (s : Settings) : Path := s.dataDir.join (.ofString s.dedup.storeDir)

def hotPathsPath (s : Settings) : Path := s.dataDir.join (.ofString "hot_paths.json")

instance : JsonFormat Settings where
  toJson? s := do
    let dataDir ← JsonFormat.toJson? s.dataDir
    let scan ← JsonFormat.toJson? s.scan
    let dedup ← JsonFormat.toJson? s.dedup
    some (.record
      [("version", .ofNat s.version.toNat), ("data_dir", dataDir),
        ("log_level", .ofString s.logLevel), ("scan", scan), ("dedup", dedup)])
  ofJson? v :=
    match Json.fields? ["version", "data_dir", "log_level", "scan", "dedup"] v with
    | some [version, dataDir, logLevel, scan, dedup] => do
      some
        { version := ← Json.required? Json.uint32? version
          dataDir := ← Json.required? JsonFormat.ofJson? dataDir
          logLevel := ← Json.required? Json.text? logLevel
          scan := ← Json.defaulted? .default JsonFormat.ofJson? scan
          dedup := ← Json.defaulted? .default JsonFormat.ofJson? dedup }
    | _ => none

end Settings

end IncrementalBackup
