import IncrementalBackup.Storage.Access

/-!
# Scan requests and results

A scan asks whether anything at or below a directory is newer than a time, down to a depth. A change
is reported at the directory that holds the changed node, relative to the root.
-/

namespace IncrementalBackup

structure ScanRequest where
  root : Path
  /-- Only later times count as changes. -/
  threshold : Instant
  maxDepth : Nat
  hint : Option Path
deriving Repr

inductive ScanResult where
  | unchanged
  | changed (foundPath : Path) (foundAt : Instant)
deriving DecidableEq, Repr

namespace ScanResult

def hasChanges : ScanResult → Bool
  | unchanged => false
  | changed .. => true

def foundPath? : ScanResult → Option Path
  | unchanged => none
  | changed p _ => some p

def foundAt? : ScanResult → Option Instant
  | unchanged => none
  | changed _ t => some t

end ScanResult

inductive ScanPhase where
  | hotPath
  | fullScan
deriving DecidableEq, Repr

namespace ScanPhase

def name : ScanPhase → String
  | hotPath => "hot_path"
  | fullScan => "full_scan"

end ScanPhase

structure ScanStats where
  nodesVisited : Nat
  dirsListed : Nat
  listingFailures : Nat
  foundIn : Option ScanPhase
deriving DecidableEq, Repr

namespace ScanStats

def zero : ScanStats := ⟨0, 0, 0, none⟩

def visited (s : ScanStats) : ScanStats := { s with nodesVisited := s.nodesVisited + 1 }
def listed (s : ScanStats) : ScanStats := { s with dirsListed := s.dirsListed + 1 }
def failed (s : ScanStats) : ScanStats := { s with listingFailures := s.listingFailures + 1 }
def found (s : ScanStats) (phase : ScanPhase) : ScanStats := { s with foundIn := some phase }

end ScanStats

def newer? (threshold : Instant) (modified : Option Instant) : Option Instant :=
  modified.filter (fun t => threshold < t)

end IncrementalBackup
