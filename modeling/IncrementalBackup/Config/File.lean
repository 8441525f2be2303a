import IncrementalBackup.Config.Settings
import IncrementalBackup.HotPaths.Snapshot
import IncrementalBackup.Storage.Files

/-!
# Files of the data directory

The settings file and the file of the hot path cache. A settings file of an older version is raised
to the current one and saved in the data directory that it names.
-/

namespace IncrementalBackup

variable {φ : Type} [Files φ]

namespace Settings

def named {α : Type} (p : Path) : Except Failure α → Except ConfigError α
  | .ok a => .ok a
  | .error e => .error (.storage ⟨p, e, none⟩)

def save (s : Settings) (fs : φ) : Except ConfigError Unit × φ :=
  match Files.createDirAll s.dataDir fs with
  | (.error e, fs) => (.error (.storage ⟨s.dataDir, e, none⟩), fs)
  | (.ok (), fs) =>
    match JsonFormat.pretty? s with
    | none => (.error .malformed, fs)
    | some text =>
      let (result, fs) := Files.writeText s.filePath text fs
      (named s.filePath result, fs)

def parse (text : String) : Except ConfigError Settings :=
  match JsonFormat.read? text with
  | some s => .ok s
  | none => .error .malformed

/-- Reads a settings file; settings of an older version are raised and saved. -/
def read (p : Path) (fs : φ) : Except ConfigError Settings × φ :=
  match Files.readText fs p with
  | .error e => (.error (.storage ⟨p, e, none⟩), fs)
  | .ok text =>
    match parse text with
    | .error e => (.error e, fs)
    | .ok s =>
      match s.migrate with
      | .error e => (.error e, fs)
      | .ok migrated =>
        if s.needsMigration then
          match migrated.save fs with
          | (.error e, fs) => (.error e, fs)
          | (.ok (), fs) => (.ok migrated, fs)
        else (.ok s, fs)

def load (dataDir : Path) (fs : φ) : Except ConfigError Settings × φ :=
  let p := dataDir.join fileName
  if Files.contains fs p then read p fs
  else
    match (default dataDir).save fs with
    | (.error e, fs) => (.error e, fs)
    | (.ok (), fs) => (.ok (default dataDir), fs)

def makeDirectories : List Path → φ → Except ConfigError Unit × φ
  | [], fs => (.ok (), fs)
  | p :: rest, fs =>
    match Files.createDirAll p fs with
    | (.error e, fs) => (.error (.storage ⟨p, e, none⟩), fs)
    | (.ok (), fs) => makeDirectories rest fs

def ensureDirectories (s : Settings) (fs : φ) : Except ConfigError Unit × φ :=
  makeDirectories [s.dataDir, s.logsDir, s.dedupRoot] fs

end Settings

namespace HotPathCache

/-- The cache kept in a file. One that is missing or unreadable is empty. -/
def load (p : Path) (fs : φ) : HotPathCache :=
  if !Files.contains fs p then ∅
  else
    match Files.readText fs p with
    | .error _ => ∅
    | .ok text =>
      match JsonFormat.read? text with
      | some snapshot => ofSnapshot snapshot
      | none => ∅

inductive SaveError where
  | noText
  | write (cause : Failure)
deriving DecidableEq, Repr

def save (p : Path) (c : HotPathCache) (fs : φ) : Except SaveError Unit × φ :=
  match JsonFormat.pretty? c.snapshot with
  | none => (.error .noText, fs)
  | some text =>
    match Files.writeText p text fs with
    | (.ok (), fs) => (.ok (), fs)
    | (.error e, fs) => (.error (.write e), fs)

end HotPathCache

end IncrementalBackup
