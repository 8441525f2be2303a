import IncrementalBackup.Storage.Access
import IncrementalBackup.Storage.Files

/-!
# The local tree

A disk behind the storage interface. Relative paths start from a root, and failures name the path
that was used. Listings are in the order of the names.
-/

namespace IncrementalBackup

structure LocalTree where
  disk : Disk
  root : Path

namespace LocalTree

def ofDisk (disk : Disk) : LocalTree := ⟨disk, .here⟩

def resolve (t : LocalTree) (p : Path) : Path := if p.isAbsolute then p else t.root.join p

def kindOf : DiskContent → EntryKind
  | .directory => .directory
  | .file _ => .file
  | .symlink _ => .symlink

/-- The size of a link is the length of its target. -/
def sizeOf : DiskContent → Nat
  | .directory => 0
  | .file data => data.length
  | .symlink target => target.length

def metadataOf (n : DiskNode) : Metadata := ⟨kindOf n.content, sizeOf n.content, some n.modified⟩

def named {α : Type} (p : Path) (context : Option String) : Except Failure α → Except AccessError α
  | .ok a => .ok a
  | .error e => .error (.ofFailure p e context)

def metadata (t : LocalTree) (p : Path) : Except AccessError Metadata :=
  named (t.resolve p) none ((t.disk.lookup false (t.resolve p)).map (metadataOf ·.2))

def metadataFollow (t : LocalTree) (p : Path) : Except AccessError Metadata :=
  named (t.resolve p) none ((t.disk.lookup true (t.resolve p)).map (metadataOf ·.2))

def entryOf (e : List UInt8 × DiskNode) : Entry :=
  ⟨Utf8.lossy e.1, kindOf e.2.content, sizeOf e.2.content, some e.2.modified⟩

def readDir (t : LocalTree) (p : Path) : Except AccessError (List Entry) :=
  (named (t.resolve p) none (t.disk.readDir (t.resolve p))).map fun entries =>
    (entries.map entryOf).mergeSort (fun a b => (Utf8.compare a.name b.name).isLE)

/-- Nothing is read for a limit of zero; a directory can be opened but not read. -/
def readPrefix (t : LocalTree) (p : Path) (limit : Nat) : Except AccessError (List UInt8) :=
  let full := t.resolve p
  match t.disk.lookup true full with
  | .error e => .error (.ofFailure full e none)
  | .ok (_, node) =>
    if limit = 0 then .ok []
    else
      match node.content with
      | .file data => .ok (data.take limit)
      | _ => .error (.ofFailure full (.system .isDirectory) (some "reading file prefix"))

def view (t : LocalTree) : View := ⟨t.metadata, t.metadataFollow, t.readDir, t.readPrefix⟩

def lift {α : Type} (t : LocalTree) (p : Path) (context : Option String) :
    Except Failure α × Disk → Except AccessError α × LocalTree
  | (result, disk) => (named p context result, { t with disk })

def createDirAll (p : Path) (t : LocalTree) : Except AccessError Unit × LocalTree :=
  t.lift (t.resolve p) none (Disk.createDirAll (t.resolve p) t.disk)

def copyFile (source target : Path) (t : LocalTree) : Except AccessError Nat × LocalTree :=
  t.lift (t.resolve source) (some ("copying to '" ++ (t.resolve target).display ++ "'"))
    (Disk.copyFile (t.resolve source) (t.resolve target) t.disk)

def removeDirAll (p : Path) (t : LocalTree) : Except AccessError Unit × LocalTree :=
  let full := t.resolve p
  match t.disk.lookup false full with
  | .error e => (.error (.ofFailure full e none), t)
  | .ok (_, node) =>
    if node.content ≠ .directory then (.error (.notADirectory full), t)
    else t.lift full none (Disk.removeDirAll full t.disk)

instance : Storage LocalTree where
  backend _ := .disk
  view := view
  createDirAll := createDirAll
  copyFile := copyFile
  removeDirAll := removeDirAll

def onDisk {α : Type} (t : LocalTree) : α × Disk → α × LocalTree
  | (a, disk) => (a, { t with disk })

/-- Text files are named from the working directory, not from the root. -/
instance : Files LocalTree where
  contains t := t.disk.contains
  readText t := t.disk.readText
  writeText p text t := t.onDisk (Files.writeText p text t.disk)
  createDirAll p t := t.onDisk (Disk.createDirAll p t.disk)

end LocalTree

end IncrementalBackup
