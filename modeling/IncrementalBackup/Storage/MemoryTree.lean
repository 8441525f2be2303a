import IncrementalBackup.OrderedMap
import IncrementalBackup.Storage.Access

/-!
# Trees in memory

A tree in memory is a map from places to nodes. Every time in it is set by its user: adding a node
does not touch the node above. Access to a place can be denied. Since the order of places puts
everything below a place directly after it, a listing is a stretch of the map.
-/

namespace IncrementalBackup

structure MemoryNode where
  kind : EntryKind
  modified : Instant
  data : List UInt8
deriving DecidableEq, Repr

structure MemoryTree where
  nodes : OrderedMap Location MemoryNode Location.compare
  denied : OrderedMap Location Unit Location.compare
  /-- The time that copied files and created directories get. -/
  now : Instant

namespace MemoryTree

def empty (now : Instant) : MemoryTree := ⟨∅, ∅, now⟩

def node? (t : MemoryTree) (l : Location) : Option MemoryNode := t.nodes.get? l

/-- Adds the missing places above one, as directories of the epoch. -/
def withAncestors (nodes : OrderedMap Location MemoryNode Location.compare) (l : Location) :
    OrderedMap Location MemoryNode Location.compare :=
  l.ancestors.foldl (fun m a => m.insertIfNew a ⟨.directory, .epoch, []⟩) nodes

def put (t : MemoryTree) (p : Path) (node : MemoryNode) : MemoryTree :=
  { t with nodes := (withAncestors t.nodes p.components).insert p.components node }

def addDirectory (t : MemoryTree) (p : Path) (modified : Instant) : MemoryTree :=
  t.put p ⟨.directory, modified, []⟩

def addFile (t : MemoryTree) (p : Path) (data : List UInt8) (modified : Instant) : MemoryTree :=
  t.put p ⟨.file, modified, data⟩

def addSymlink (t : MemoryTree) (p : Path) (modified : Instant) : MemoryTree :=
  t.put p ⟨.symlink, modified, []⟩

def setModified (t : MemoryTree) (p : Path) (modified : Instant) : MemoryTree :=
  { t with nodes := t.nodes.modify p.components ({ · with modified }) }

def setContents (t : MemoryTree) (p : Path) (data : List UInt8) : MemoryTree :=
  { t with nodes := t.nodes.modify p.components ({ · with data }) }

/-- From now on every access to a place fails. -/
def deny (t : MemoryTree) (p : Path) : MemoryTree :=
  { t with denied := t.denied.insert p.components () }

def allow (t : MemoryTree) (p : Path) : MemoryTree :=
  { t with denied := t.denied.erase p.components }

def checkAccess (t : MemoryTree) (p : Path) : Except AccessError Unit :=
  if t.denied.contains p.components then
    .error (.storage ⟨p, .bare .permissionDenied, none⟩)
  else .ok ()

def node (t : MemoryTree) (p : Path) : Except AccessError MemoryNode :=
  match t.checkAccess p with
  | .error e => .error e
  | .ok () =>
    match t.node? p.components with
    | some n => .ok n
    | none => .error (.notFound p)

def metadata (t : MemoryTree) (p : Path) : Except AccessError Metadata :=
  (t.node p).map (fun n => ⟨n.kind, n.data.length, some n.modified⟩)

def entry? (l : Location) (n : MemoryNode) : Option Entry :=
  l.fileName?.map (fun name => ⟨Utf8.lossy name, n.kind, n.data.length, some n.modified⟩)

/-- The nodes directly below a place: from what follows it, as long as it lies below it. -/
def children (t : MemoryTree) (l : Location) : List (Location × MemoryNode) :=
  (((t.nodes.entriesFrom l).drop 1).takeWhile (fun e => e.1.startsWith l)).filter
    (fun e => e.1.parent? == some l)

def readDir (t : MemoryTree) (p : Path) : Except AccessError (List Entry) :=
  match t.node p with
  | .error e => .error e
  | .ok n =>
    if n.kind ≠ .directory then .error (.notADirectory p)
    else .ok ((t.children p.components).filterMap (fun e => entry? e.1 e.2))

def readPrefix (t : MemoryTree) (p : Path) (limit : Nat) : Except AccessError (List UInt8) :=
  match t.node p with
  | .error e => .error e
  | .ok n =>
    if n.kind = .directory then
      .error (.storage ⟨p, .bare .invalidInput, some "reading a directory as a file"⟩)
    else .ok (n.data.take limit)

def view (t : MemoryTree) : View := ⟨t.metadata, t.metadata, t.readDir, t.readPrefix⟩

def createDirAll (p : Path) (t : MemoryTree) : Except AccessError Unit × MemoryTree :=
  match t.checkAccess p with
  | .error e => (.error e, t)
  | .ok () =>
    match t.node? p.components with
    | some n => if n.kind ≠ .directory then (.error (.notADirectory p), t) else (.ok (), t)
    | none => (.ok (), t.put p ⟨.directory, t.now, []⟩)

def copyFile (source target : Path) (t : MemoryTree) : Except AccessError Nat × MemoryTree :=
  match t.node source with
  | .error e => (.error e, t)
  | .ok n =>
    match t.checkAccess target with
    | .error e => (.error e, t)
    | .ok () =>
      let parent := target.parent?.getD ⟨[]⟩
      match t.node? parent.components with
      | none => (.error (.notFound parent), t)
      | some above =>
        if above.kind ≠ .directory then (.error (.notADirectory parent), t)
        else
          (.ok n.data.length,
            { t with nodes := t.nodes.insert target.components ⟨.file, t.now, n.data⟩ })

def removeDirAll (p : Path) (t : MemoryTree) : Except AccessError Unit × MemoryTree :=
  match t.node p with
  | .error e => (.error e, t)
  | .ok n =>
    if n.kind ≠ .directory then (.error (.notADirectory p), t)
    else
      (.ok (), { t with nodes := t.nodes.filterKeys (fun l => !l.startsWith p.components) })

instance : Storage MemoryTree where
  backend _ := .memory
  view := view
  createDirAll := createDirAll
  copyFile := copyFile
  removeDirAll := removeDirAll

end MemoryTree

end IncrementalBackup
