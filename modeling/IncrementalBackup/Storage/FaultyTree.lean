import IncrementalBackup.Storage.MemoryTree

/-!
# Trees with faults

A tree in memory behind a storage that can be told to fail a call for a path, to report no time for
a path, or to list backwards. Failing calls leave the tree as it is.
-/

namespace IncrementalBackup

inductive StorageCall where
  | metadata
  | readDir
  | readPrefix
  | createDirAll
  | copyFile
  | removeDirAll
deriving DecidableEq, Repr

namespace StorageCall

def name : StorageCall → String
  | metadata => "metadata"
  | readDir => "read_dir"
  | readPrefix => "read_prefix"
  | createDirAll => "create_dir_all"
  | copyFile => "copy_file"
  | removeDirAll => "remove_dir_all"

end StorageCall

inductive FaultKind where
  | notFound
  | notADirectory
  | permissionDenied
deriving DecidableEq, Repr

structure Fault where
  call : StorageCall
  place : Location
  kind : FaultKind
deriving Repr

structure FaultyTree where
  tree : MemoryTree
  /-- The first fault for a call and a place counts. -/
  faults : List Fault
  timeless : List Location
  reversed : Bool

namespace FaultyTree

def ofTree (tree : MemoryTree) : FaultyTree := ⟨tree, [], [], false⟩

def addFault (t : FaultyTree) (call : StorageCall) (p : Path) (kind : FaultKind) : FaultyTree :=
  { t with faults := t.faults ++ [⟨call, p.components, kind⟩] }

def clearFaults (t : FaultyTree) : FaultyTree := { t with faults := [] }

def hideTime (t : FaultyTree) (p : Path) : FaultyTree :=
  { t with timeless := p.components :: t.timeless }

def check (t : FaultyTree) (call : StorageCall) (p : Path) : Except AccessError Unit :=
  match t.faults.find? (fun f => f.call == call && f.place == p.components) with
  | none => .ok ()
  | some f =>
    match f.kind with
    | .notFound => .error (.notFound p)
    | .notADirectory => .error (.notADirectory p)
    | .permissionDenied => .error (.storage ⟨p, .bare .permissionDenied, some call.name⟩)

def visibleTime (t : FaultyTree) (p : Path) (modified : Option Instant) : Option Instant :=
  if p.components ∈ t.timeless then none else modified

def metadata (t : FaultyTree) (p : Path) : Except AccessError Metadata :=
  (t.check .metadata p).bind fun _ =>
    (t.tree.metadata p).map (fun m => { m with modified := t.visibleTime p m.modified })

def readDir (t : FaultyTree) (p : Path) : Except AccessError (List Entry) :=
  (t.check .readDir p).bind fun _ =>
    (t.tree.readDir p).map fun entries =>
      let shown := entries.map fun e =>
        { e with modified := t.visibleTime (p.join (.ofString e.name)) e.modified }
      if t.reversed then shown.reverse else shown

def readPrefix (t : FaultyTree) (p : Path) (limit : Nat) : Except AccessError (List UInt8) :=
  (t.check .readPrefix p).bind fun _ => t.tree.readPrefix p limit

def view (t : FaultyTree) : View := ⟨t.metadata, t.metadata, t.readDir, t.readPrefix⟩

def guarded {α : Type} (call : StorageCall) (p : Path)
    (op : MemoryTree → Except AccessError α × MemoryTree) (t : FaultyTree) :
    Except AccessError α × FaultyTree :=
  match t.check call p with
  | .error e => (.error e, t)
  | .ok () =>
    let (result, tree) := op t.tree
    (result, { t with tree })

instance : Storage FaultyTree where
  backend _ := .external
  view := view
  createDirAll p := guarded .createDirAll p (MemoryTree.createDirAll p)
  copyFile source target := guarded .copyFile source (MemoryTree.copyFile source target)
  removeDirAll p := guarded .removeDirAll p (MemoryTree.removeDirAll p)

end FaultyTree

end IncrementalBackup
