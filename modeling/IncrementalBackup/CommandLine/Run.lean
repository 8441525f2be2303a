import IncrementalBackup.CommandLine.Command
import IncrementalBackup.CommandLine.Report
import IncrementalBackup.Storage.Files

/-!
# Running a command line

A command line is read, the settings are loaded, the directories of the program are made, and then
the command runs. All of it works on one world that holds the files; what is left is the world
after it and an outcome to be shown.
-/

namespace IncrementalBackup.CommandLine

structure Outcome where
  exitCode : Nat
  output : String
  notes : List String
deriving DecidableEq, Repr

variable {σ : Type} [Storage σ] [Files σ]

def defaultDataDir (home : Path) : Path := home.join (.ofString ".local/share/appvault")

/-- The settings of a run. A data directory that is given counts more than the one in the file. -/
def loadSettings (home : Path) (r : Request) (world : σ) : Except CommandError Settings × σ :=
  let (loaded, world) := match r.config with
    | some path =>
      let (result, world) := Settings.read path world
      (result.mapError (CommandError.settingsFile path), world)
    | none =>
      let (result, world) := Settings.load (r.dataDir.getD (defaultDataDir home)) world
      (result.mapError CommandError.settings, world)
  (loaded.map (fun s => { s with dataDir := r.dataDir.getD s.dataDir }), world)

def readRecords (path : Path) (world : σ) : Except CommandError (List BackupRecord) :=
  match Files.readText world path with
  | .error e => .error (.recordsUnreadable path e)
  | .ok text =>
    match JsonFormat.read? text with
    | some records => .ok records
    | none => .error (.recordsMalformed path)

def runScan (s : Settings) (root : Path) (since : Instant) (maxDepth : Option Nat)
    (hint : Option Path) (world : σ) : Except CommandError Report :=
  let depth := maxDepth.getD s.scan.maxDepth.toNat
  let (result, stats) := Scan.withStats (Storage.view world) ⟨root, since, depth, hint⟩
  match result.foundAt? with
  | none => .ok (.scanned result.foundPath? none stats)
  | some time =>
    match DateTime.ofInstant? time with
    | some date => .ok (.scanned result.foundPath? (some date) stats)
    | none => .error .undated

def runEvaluate (s : Settings) (package : PackageDirs) (since : Option Instant) (world : σ) :
    Except CommandError Report × σ :=
  let cache := HotPathCache.load s.hotPathsPath world
  let (decision, cache) := Evaluation.evaluate (Storage.view world) s.scan package since cache
  let (saved, world) := HotPathCache.save s.hotPathsPath cache world
  match saved with
  | .error e => (.error (.hotPaths s.hotPathsPath e), world)
  | .ok () => (.ok (.evaluated package.package decision), world)

def runKey (s : Settings) (strategy : Option DedupStrategy) (apks : ApkSet) (world : σ) : Report :=
  let strategy := strategy.getD s.dedup.strategy
  .computed (Dedup.computeKey (Storage.view world) apks { s.dedup with strategy }) strategy

def dedupStore (s : Settings) : DedupStore := ⟨s.dedupRoot, s.dedup⟩

def runPrune (s : Settings) (package : String) (records : Path) (dryRun : Bool) (world : σ) :
    Except CommandError Report × σ :=
  match readRecords records world with
  | .error e => (.error e, world)
  | .ok records =>
    if dryRun then
      match (dedupStore s).unreferenced package records (Storage.view world) with
      | .error e => (.error (.prune e), world)
      | .ok keys => (.ok (.pruned package true ⟨keys, []⟩), world)
    else
      let (result, world) := (dedupStore s).pruneUnreferenced package records world
      ((result.mapError CommandError.prune).map (Report.pruned package false), world)

def runCommand (s : Settings) (c : Command) (world : σ) : Except CommandError Report × σ :=
  match c with
  | .scan root since maxDepth hint => (runScan s root since maxDepth hint world, world)
  | .evaluate package since => runEvaluate s package since world
  | .key strategy apks => (.ok (runKey s strategy apks world), world)
  | .verify dir apks => (.ok (.verified dir (Dedup.verifyMatch (Storage.view world) dir apks)), world)
  | .store package apks =>
    let (result, world) := (dedupStore s).storeApks package apks world
    ((result.mapError (CommandError.store package)).map Report.stored, world)
  | .refs records identifier =>
    ((readRecords records world).map fun records =>
      .counted identifier (countReferences records identifier), world)
  | .prune package records dryRun => runPrune s package records dryRun world

def runRequest (home : Path) (r : Request) (world : σ) : Except CommandError Report × σ :=
  match loadSettings home r world with
  | (.error e, world) => (.error e, world)
  | (.ok s, world) =>
    match s.ensureDirectories world with
    | (.error e, world) => (.error (.directories e), world)
    | (.ok (), world) => runCommand s r.command world

def unlines (lines : List String) : String := String.join (lines.map (· ++ "\n"))

def showReport (format : OutputFormat) (report : Report) : Outcome :=
  match format with
  | .human => ⟨0, unlines report.lines, report.warnings⟩
  | .json =>
    match report.toJson? with
    | some v => ⟨0, unlines [v.pretty], []⟩
    | none => ⟨0, "", ["Failed to serialize output: path contains invalid UTF-8 characters"]⟩

def showError : CommandError → Outcome
  | .undated => ⟨101, "", []⟩
  | e => ⟨1, "", (MessageChain.ofCommand e).lines⟩

def showUsage : UsageError → Outcome
  | .invalidValue message => ⟨2, "", (MessageChain.linesOf message).take 1⟩
  | .other => ⟨2, "", []⟩

def run (home : Path) (args : List String) (world : σ) : Outcome × σ :=
  match readRequest args with
  | .error e => (showUsage e, world)
  | .ok r =>
    match runRequest home r world with
    | (.error e, world) => (showError e, world)
    | (.ok report, world) => (showReport r.format report, world)

end IncrementalBackup.CommandLine
