import IncrementalBackup.Config.File
import IncrementalBackup.Dedup.Store
import IncrementalBackup.Evaluation.Decision
import IncrementalBackup.Time.DateTime

/-!
# Reports

What a command has found out, as lines for readers or as JSON, and the lines for a command that
failed: what it was doing, and then the causes, the innermost last.
-/

namespace IncrementalBackup.CommandLine

inductive Report where
  | scanned (foundPath : Option Path) (foundAt : Option DateTime) (stats : ScanStats)
  | evaluated (package : String) (decision : BackupDecision)
  | computed (key : DedupKey) (strategy : DedupStrategy)
  | verified (dir : Path) (holds : Bool)
  | stored (apks : StoredApks)
  | counted (identifier : String) (references : Nat)
  | pruned (package : String) (dryRun : Bool) (report : PruneReport)
deriving Repr

namespace Report

def lines : Report → List String
  | scanned foundPath foundAt stats =>
    let first := match foundPath, foundAt with
      | some path, some time => "Changed: " ++ path.display ++ " (modified " ++ time.spaced ++ ")"
      | _, _ => "Unchanged"
    [first, "Visited " ++ Decimal.ofNat stats.nodesVisited ++ " nodes, listed " ++
      Decimal.ofNat stats.dirsListed ++ " directories"]
  | evaluated package decision =>
    if decision.isNewPackage then [package ++ ": new package, backup needed"]
    else
      match decision.changedCategory with
      | some category => [package ++ ": " ++ category.name ++ " changed, backup needed"]
      | none => [package ++ ": unchanged"]
  | computed key _ => [key.text]
  | verified dir true => [dir.display ++ " holds every APK"]
  | verified dir false => [dir.display ++ " does not match"]
  | stored apks =>
    if apks.reused then ["Reused " ++ apks.key.text ++ " (" ++ apks.dir.display ++ ")"]
    else ["Stored " ++ apks.key.text ++ " (" ++ apks.dir.display ++ ", " ++
      Decimal.ofNat apks.bytesCopied ++ " bytes copied)"]
  | counted identifier references =>
    [identifier ++ ": " ++ Decimal.ofNat references ++ " reference(s)"]
  | pruned package dryRun report =>
    let removal := if dryRun then "Would remove " else "Removed "
    (if report.removed = [] ∧ report.failed = [] then [package ++ ": nothing to prune"] else []) ++
      report.removed.map (fun key => removal ++ key.text) ++
      report.failed.map (fun key => "Failed to remove " ++ key.text)

def warnings : Report → List String
  | computed key _ => if key.isFallback then ["No APK could be read, this is a fallback key"] else []
  | _ => []

def optional? {α : Type} [JsonFormat α] : Option α → Option Json
  | none => some .null
  | some a => JsonFormat.toJson? a

def keys (ks : List DedupKey) : Json := .list (fun k => .ofString k.text) ks

def toJson? : Report → Option Json
  | scanned foundPath foundAt stats => do
    some (.record
      [("changed", .boolean foundPath.isSome), ("found_path", ← optional? foundPath),
        ("found_at", ← optional? foundAt),
        ("found_in", .ofOption (fun phase => .ofString phase.name) stats.foundIn),
        ("nodes_visited", .ofNat stats.nodesVisited), ("dirs_listed", .ofNat stats.dirsListed),
        ("listing_failures", .ofNat stats.listingFailures)])
  | evaluated package decision => do
    some (.record
      [("package", .ofString package), ("needs_backup", .boolean decision.needsBackup),
        ("is_new_package", .boolean decision.isNewPackage),
        ("changed_category", ← optional? decision.changedCategory)])
  | computed key strategy => do
    some (.record
      [("key", ← JsonFormat.toJson? key), ("strategy", ← JsonFormat.toJson? strategy),
        ("fallback", .boolean key.isFallback)])
  | verified dir holds => do
    some (.record [("dir", ← JsonFormat.toJson? dir), ("matches", .boolean holds)])
  | stored apks => do
    some (.record
      [("key", ← JsonFormat.toJson? apks.key), ("dir", ← JsonFormat.toJson? apks.dir),
        ("reused", .boolean apks.reused), ("bytes_copied", .ofNat apks.bytesCopied)])
  | counted identifier references =>
    some (.record [("identifier", .ofString identifier), ("references", .ofNat references)])
  | pruned package dryRun report =>
    some (.record
      [("package", .ofString package), ("dry_run", .boolean dryRun),
        ("removed", keys report.removed), ("failed", keys report.failed)])

end Report

inductive CommandError where
  | settingsFile (path : Path) (cause : ConfigError)
  | settings (cause : ConfigError)
  | directories (cause : ConfigError)
  | hotPaths (path : Path) (cause : HotPathCache.SaveError)
  | recordsUnreadable (path : Path) (cause : Failure)
  | recordsMalformed (path : Path)
  | store (package : String) (cause : DedupError)
  | prune (cause : DedupError)
  | undated
deriving Repr

/-- Messages from the outermost to the innermost one that is shown. -/
structure MessageChain where
  messages : List String
  continues : Bool

namespace MessageChain

def within (context : String) (c : MessageChain) : MessageChain :=
  { c with messages := context :: c.messages }

def ofStorage (f : StorageFailure) : MessageChain := ⟨[f.message, f.cause.message], false⟩

def ofConfig : ConfigError → MessageChain
  | .storage failure => ofStorage failure
  | .malformed => ⟨[ConfigError.malformed.message], true⟩
  | e => ⟨[e.message], false⟩

def ofDedup : DedupError → MessageChain
  | .access (.storage failure) => ofStorage failure
  | e => ⟨[e.message], false⟩

def ofSave (path : Path) : HotPathCache.SaveError → MessageChain
  | .noText => ⟨["path contains invalid UTF-8 characters"], false⟩
  | .write cause =>
    ⟨["Failed to write hot path cache to " ++ path.display, cause.message], false⟩

def ofCommand : CommandError → MessageChain
  | .settingsFile path cause => (ofConfig cause).within ("Failed to read config at " ++ path.display)
  | .settings cause => ofConfig cause
  | .directories cause => (ofConfig cause).within "Failed to create data directories"
  | .hotPaths path cause => ofSave path cause
  | .recordsUnreadable path cause =>
    ⟨["Failed to read backup records from " ++ path.display, cause.message], false⟩
  | .recordsMalformed path => ⟨["Malformed backup records in " ++ path.display], true⟩
  | .store package cause => (ofDedup cause).within ("Failed to store APKs of " ++ package)
  | .prune cause => ofDedup cause
  | .undated => ⟨[], false⟩

def linesOf (s : String) : List String := s.splitOn "\n"

def indented (mark : String) (message : String) : List String :=
  match linesOf message with
  | [] => [mark]
  | first :: rest =>
    (mark ++ first) :: rest.map (String.ofList (List.replicate mark.length ' ') ++ ·)

def mark (n : Nat) : String :=
  let digits := Decimal.digits n
  String.ofList (List.replicate (5 - digits.length) ' ' ++ digits) ++ ": "

/-- Causes are numbered if there are several. -/
def causes (several : Bool) : Nat → List String → List String
  | _, [] => []
  | n, message :: rest =>
    indented (if several then mark n else "    ") message ++ causes several (n + 1) rest

def lines (c : MessageChain) : List String :=
  match c.messages with
  | [] => []
  | first :: rest =>
    linesOf ("Error: " ++ first) ++
      match rest with
      | [] => []
      | _ => "" :: "Caused by:" :: causes (c.continues || 1 < rest.length) 0 rest

end MessageChain

end IncrementalBackup.CommandLine
