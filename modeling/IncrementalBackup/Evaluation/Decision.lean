import IncrementalBackup.HotPaths.Cache
import IncrementalBackup.Scan.HotPath
import IncrementalBackup.Scan.Options

/-!
# Deciding on backups

A package needs a backup if it never had one, or if one of its data directories has changed since.
The directories of the category that changed last are scanned first, the others after them, each
group as it was declared, until one shows a change.
-/

namespace IncrementalBackup

structure PackageDirs where
  package : String
  dirs : List (DataCategory × Path)
deriving Repr

structure BackupDecision where
  needsBackup : Bool
  isNewPackage : Bool
  changedCategory : Option DataCategory
deriving DecidableEq, Repr

namespace Evaluation

def preferred? (options : ScanOptions) (cache : HotPathCache) (package : String) :
    Option DataCategory :=
  if options.useHotPath then cache.lastChangedCategory? package else none

def ordered (preferred : Option DataCategory) (dirs : List (DataCategory × Path)) :
    List (DataCategory × Path) :=
  dirs.filter (fun d => some d.1 == preferred) ++ dirs.filter (fun d => some d.1 != preferred)

def request (options : ScanOptions) (cache : HotPathCache) (package : String)
    (since : Instant) (dir : DataCategory × Path) : ScanRequest where
  root := dir.2
  threshold := since
  maxDepth := options.maxDepth.toNat
  hint := if options.useHotPath then cache.get? package dir.1 else none

def firstChanged (view : View) (options : ScanOptions) (cache : HotPathCache) (package : String)
    (since : Instant) : List (DataCategory × Path) → Option (DataCategory × Path)
  | [] => none
  | dir :: rest =>
    match scan view (request options cache package since dir) with
    | .changed path _ => some (dir.1, path)
    | .unchanged => firstChanged view options cache package since rest

/-- Decides on a package and remembers where a change was found. -/
def evaluate (view : View) (options : ScanOptions) (package : PackageDirs)
    (lastBackup : Option Instant) (cache : HotPathCache) : BackupDecision × HotPathCache :=
  match lastBackup with
  | none => (⟨true, true, none⟩, cache)
  | some since =>
    let dirs := ordered (preferred? options cache package.package) package.dirs
    match firstChanged view options cache package.package since dirs with
    | none => (⟨false, false, none⟩, cache)
    | some (category, path) =>
      (⟨true, false, some category⟩,
        if options.useHotPath then cache.recordChange package.package category path else cache)

end Evaluation

end IncrementalBackup
