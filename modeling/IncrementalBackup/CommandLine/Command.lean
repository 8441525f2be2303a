import IncrementalBackup.CommandLine.Arguments
import IncrementalBackup.Evaluation.Decision

/-!
# Commands

What a command line asks for, with its values read.
-/

namespace IncrementalBackup.CommandLine

inductive Command where
  | scan (root : Path) (since : Instant) (maxDepth : Option Nat) (hint : Option Path)
  | evaluate (package : PackageDirs) (since : Option Instant)
  | key (strategy : Option DedupStrategy) (apks : ApkSet)
  | verify (dir : Path) (apks : List Path)
  | store (package : String) (apks : ApkSet)
  | refs (records : Path) (identifier : String)
  | prune (package : String) (records : Path) (dryRun : Bool)
deriving Repr

structure Request where
  dataDir : Option Path
  /-- The settings file to read instead of the one in the data directory. -/
  config : Option Path
  format : OutputFormat
  command : Command
deriving Repr

namespace Invocation

def read? {α : Type} (i : Invocation) (a : Argument) (read : String → Except ValueError α) :
    Option α :=
  (i.value? a).bind (fun raw => (read raw).toOption)

def path? (i : Invocation) (a : Argument) : Option Path := (i.value? a).map Path.ofString

def apkPaths (i : Invocation) : List Path := (i.values .apks).map Path.ofString

def apkSet? (i : Invocation) : Option ApkSet := do
  let versionCode ← i.read? .versionCode readInt64
  some ⟨i.value? .versionName, .ofInt versionCode, i.apkPaths⟩

def packageDirs? (i : Invocation) : Option PackageDirs := do
  let package ← i.value? .package
  some ⟨package, (i.values .dir).filterMap (fun raw => (readCategoryDir raw).toOption)⟩

def command? (i : Invocation) : Option Command :=
  match i.command with
  | .scan => do
    some (.scan (← i.path? .root) (← i.read? .since readSince) (i.read? .maxDepth readMaxDepth)
      (i.path? .hint))
  | .evaluate => do some (.evaluate (← i.packageDirs?) (i.read? .since readSince))
  | .key => do some (.key ((i.value? .strategy).bind strategyOf?) (← i.apkSet?))
  | .verify => do some (.verify (← i.path? .candidate) i.apkPaths)
  | .store => do some (.store (← i.value? .package) (← i.apkSet?))
  | .refs => do some (.refs (← i.path? .records) (← i.value? .identifier))
  | .prune => do
    some (.prune (← i.value? .package) (← i.path? .records) (i.after.has .dryRun))

def request? (i : Invocation) : Option Request := do
  some ⟨i.path? .dataDir, i.path? .config, ((i.value? .format).bind formatOf?).getD .human,
    ← i.command?⟩

end Invocation

def readRequest (args : List String) : Except UsageError Request := do
  match (← readArguments args).request? with
  | some request => .ok request
  | none => .error .other

end IncrementalBackup.CommandLine
