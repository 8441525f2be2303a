import IncrementalBackup.OrderedMap
import IncrementalBackup.Text.Utf8

/-!
# Package locks

Work on one package runs one after another, under the lock of the package's name. The table keeps
every name that was ever locked.
-/

namespace IncrementalBackup

structure PackageLocks where
  names : OrderedMap String Unit Utf8.compare

namespace PackageLocks

def empty : PackageLocks := ⟨∅⟩

def enter (locks : PackageLocks) (package : String) : PackageLocks := ⟨locks.names.insert package ()⟩

def tracked (locks : PackageLocks) : Nat := locks.names.size

end PackageLocks

end IncrementalBackup
