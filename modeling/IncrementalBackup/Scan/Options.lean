import IncrementalBackup.Json.Format

/-!
# Options for scans

The tuning that all packages and categories share.
-/

namespace IncrementalBackup

structure ScanOptions where
  maxDepth : UInt32
  useHotPath : Bool
deriving DecidableEq, Repr

namespace ScanOptions

def default : ScanOptions := ⟨10, true⟩

instance : Inhabited ScanOptions := ⟨default⟩

instance : JsonFormat ScanOptions where
  toJson? o :=
    some (.record [("max_depth", .ofNat o.maxDepth.toNat), ("use_hot_path", .boolean o.useHotPath)])
  ofJson? v :=
    match Json.fields? ["max_depth", "use_hot_path"] v with
    | some [maxDepth, useHotPath] => do
      some
        { maxDepth := ← Json.defaulted? default.maxDepth Json.uint32? maxDepth
          useHotPath := ← Json.defaulted? default.useHotPath Json.boolean? useHotPath }
    | _ => none

end ScanOptions

end IncrementalBackup
