import IncrementalBackup.Storage.Disk

/-!
# Text files

What settings and caches need of a file system: to ask for a path, to read and to write a text, and
to make directories.
-/

namespace IncrementalBackup

class Files (φ : Type) where
  contains : φ → Path → Bool
  readText : φ → Path → Except Failure String
  writeText : Path → String → φ → Except Failure Unit × φ
  createDirAll : Path → φ → Except Failure Unit × φ

instance : Files Disk where
  contains := Disk.contains
  readText := Disk.readText
  writeText p text := Disk.writeFile p (Utf8.encode text)
  createDirAll := Disk.createDirAll

end IncrementalBackup
