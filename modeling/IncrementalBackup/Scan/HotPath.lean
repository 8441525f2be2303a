import IncrementalBackup.Scan.Full

/-!
# The hot path

A path where changes were seen before is checked before the full scan: the directory itself and the
entries in it. A path that is empty, absolute, climbs out, or lies deeper than the scan may go is
ignored, and so is one that is no directory any more.
-/

namespace IncrementalBackup

namespace Location

/-- The number of names in a place below another; `none` if it is absolute or climbs out. -/
def nameCount? : Location → Option Nat
  | [] => some 0
  | .name _ :: rest => (nameCount? rest).map (· + 1)
  | .current :: rest => nameCount? rest
  | .root :: _ | .parent :: _ => none

/-- The depth of a place below another, counted with 32 bits: the greatest count stands for all
greater ones. -/
def depth? (l : Location) : Option Nat := l.nameCount?.map (min · (UInt32.size - 1))

end Location

namespace Scan

def firstNewer (threshold : Instant) : List Entry → ScanStats → Option Instant × ScanStats
  | [], stats => (none, stats)
  | e :: rest, stats =>
    match newer? threshold e.modified with
    | some time => (some time, stats.visited)
    | none => firstNewer threshold rest stats.visited

def usableHint? (request : ScanRequest) : Option (Path × Nat) :=
  match request.hint with
  | none => none
  | some hint =>
    if hint.isEmpty then none
    else
      match hint.components.depth? with
      | none => none
      | some depth => if depth ≤ request.maxDepth then some (hint, depth) else none

/-- The directory that a hint leads to and what is known about it. A hint without names leads to
the root, which may be a link. -/
def hintTarget (view : View) (request : ScanRequest) (hint : Path) (depth : Nat) :
    Path × Except AccessError Metadata :=
  if depth = 0 then (request.root, view.metadataFollow request.root)
  else (request.root.join hint, view.metadata (request.root.join hint))

def hotPath (view : View) (request : ScanRequest) (stats : ScanStats) :
    Option ScanResult × ScanStats :=
  match usableHint? request with
  | none => (none, stats)
  | some (hint, depth) =>
    match hintTarget view request hint depth with
    | (_, .error _) => (none, stats)
    | (target, .ok found) =>
      if !found.isDirectory then (none, stats)
      else
        match newer? request.threshold found.modified with
        | some time => (some (.changed hint time), stats.visited)
        | none =>
          if depth = request.maxDepth then (none, stats.visited)
          else
            match view.readDir target with
            | .error _ => (none, stats.visited.failed)
            | .ok entries =>
              match firstNewer request.threshold entries stats.visited.listed with
              | (some time, stats) => (some (.changed hint time), stats)
              | (none, stats) => (none, stats)

/-- The hot path first, then the full scan. A root that is no directory is unchanged. -/
def withStats (view : View) (request : ScanRequest) : ScanResult × ScanStats :=
  match view.metadataFollow request.root with
  | .error _ => (.unchanged, .zero)
  | .ok root =>
    if !root.isDirectory then (.unchanged, .zero)
    else
      match hotPath view request .zero with
      | (some result, stats) => (result, stats.found .hotPath)
      | (none, stats) =>
        match full view request root.modified stats with
        | (.unchanged, stats) => (.unchanged, stats)
        | (result, stats) => (result, stats.found .fullScan)

end Scan

def scan (view : View) (request : ScanRequest) : ScanResult := (Scan.withStats view request).1

end IncrementalBackup
