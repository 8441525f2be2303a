import IncrementalBackup.OrderedMap
import IncrementalBackup.Path.Basic
import IncrementalBackup.Storage.Failure
import IncrementalBackup.Time.Instant

/-!
# A disk

Directories, files and symbolic links by absolute place, a working directory and a clock. Paths are
walked name by name: links on the way are followed, a link at the end only when the call asks for it
or the path goes on with a separator. A directory's time changes when a name in it is added or
removed, a file's when it is written.
-/

namespace IncrementalBackup

inductive DiskContent where
  | directory
  | file (data : List UInt8)
  | symlink (target : List UInt8)
deriving DecidableEq, Repr

structure DiskNode where
  content : DiskContent
  modified : Instant
deriving Repr

abbrev DiskPlace : Type := List (List UInt8)

namespace DiskPlace

def compare (a b : DiskPlace) : Ordering := List.compareLex compareBytes a b

instance : Std.TransCmp compare := inferInstanceAs (Std.TransCmp (List.compareLex compareBytes))

instance : Std.LawfulEqCmp compare := inferInstanceAs (Std.LawfulEqCmp (List.compareLex compareBytes))

end DiskPlace

structure Disk where
  nodes : OrderedMap DiskPlace DiskNode DiskPlace.compare
  current : DiskPlace
  now : Instant

namespace Disk

def maxName : Nat := 255
def maxPath : Nat := 4095

def maxLinks : Nat := 40

def empty (current : DiskPlace) (now : Instant) : Disk where
  nodes := (List.range (current.length + 1)).foldl
    (fun m n => m.insert (current.take n) ⟨.directory, now⟩) ∅
  current := current
  now := now

/-- Where a walk ends: at a node, or at a name that is missing in a directory. -/
inductive Spot where
  | found (place : DiskPlace) (node : DiskNode)
  | missing (above : DiskPlace) (name : List UInt8)

/-- The names of a path, and whether a separator follows the last one. -/
def steps (bytes : List UInt8) : List (List UInt8) × Bool :=
  ((Path.split bytes).filter (· ≠ []), bytes.getLast? == some Path.separator)

def start (bytes : List UInt8) (here : DiskPlace) : DiskPlace :=
  if bytes.head? = some Path.separator then [] else here

/-- Walks from a place along names. With `follow` a link at the end is followed; a walk that must end
at a directory has a `.` at its end. -/
def walk (d : Disk) (follow : Bool) (links : Nat) (here : DiskPlace) (names : List (List UInt8)) :
    Except SystemCode Spot :=
  match d.nodes.get? here with
  | none => .error .noEntry
  | some node =>
    match names with
    | [] => .ok (.found here node)
    | name :: rest =>
      if node.content ≠ .directory then .error .notDirectory
      else if name = Path.dot then walk d follow links here rest
      else if name = Path.dotDot then walk d follow links here.dropLast rest
      else if maxName < name.length then .error .nameTooLong
      else
        match d.nodes.get? (here ++ [name]) with
        | none => if rest = [] then .ok (.missing here name) else .error .noEntry
        | some next =>
          match next.content with
          | .symlink target =>
            if rest = [] ∧ !follow then .ok (.found (here ++ [name]) next)
            else
              match links with
              | 0 => .error .loop
              | links + 1 =>
                let (inner, ends) := steps target
                walk d follow links (start target here)
                  (inner ++ (if ends then [Path.dot] else []) ++ rest)
          | _ => walk d follow links (here ++ [name]) rest
termination_by (links, names.length)

def zeroByte : Failure := .described .invalidInput "file name contained an unexpected NUL byte"

def checkPath (p : Path) : Except Failure Unit :=
  if 0 ∈ p.bytes then .error zeroByte
  else if p.bytes = [] then .error (.system .noEntry)
  else if maxPath < p.bytes.length then .error (.system .nameTooLong)
  else .ok ()

def ofCode {α : Type} : Except SystemCode α → Except Failure α
  | .ok a => .ok a
  | .error c => .error (.system c)

def locate (d : Disk) (follow : Bool) (p : Path) : Except Failure Spot := do
  checkPath p
  let (names, ends) := steps p.bytes
  ofCode (d.walk follow maxLinks (start p.bytes d.current) (names ++ if ends then [Path.dot] else []))

def lookup (d : Disk) (follow : Bool) (p : Path) : Except Failure (DiskPlace × DiskNode) := do
  match ← d.locate follow p with
  | .found place node => .ok (place, node)
  | .missing _ _ => .error (.system .noEntry)

/-- What the last step of a path is when the directory above it is what counts. -/
inductive LastStep where
  | root
  | dot
  | dotDot
  | name (bytes : List UInt8)

/-- The directory above the last step of a byte string seen from a place, and that step. -/
def aboveFrom (d : Disk) (here : DiskPlace) (bytes : List UInt8) :
    Except Failure (DiskPlace × LastStep) :=
  let (names, _) := steps bytes
  match names.getLast? with
  | none => .ok ([], .root)
  | some last =>
    match d.walk true maxLinks (start bytes here) (names.dropLast ++ [Path.dot]) with
    | .error code => .error (.system code)
    | .ok (.missing _ _) => .error (.system .noEntry)
    | .ok (.found place _) =>
      if last = Path.dot then .ok (place, .dot)
      else if last = Path.dotDot then .ok (place, .dotDot)
      else if maxName < last.length then .error (.system .nameTooLong)
      else .ok (place, .name last)

def above (d : Disk) (p : Path) : Except Failure (DiskPlace × LastStep) := do
  checkPath p
  d.aboveFrom d.current p.bytes

def content? (d : Disk) (place : DiskPlace) : Option DiskContent :=
  (d.nodes.get? place).map (·.content)

def set (d : Disk) (place : DiskPlace) (content : DiskContent) : Disk :=
  { d with nodes := d.nodes.insert place ⟨content, d.now⟩ }

def touch (d : Disk) (place : DiskPlace) : Disk :=
  { d with nodes := d.nodes.modify place ({ · with modified := d.now }) }

def link (d : Disk) (above : DiskPlace) (name : List UInt8) (content : DiskContent) : Disk :=
  (d.set (above ++ [name]) content).touch above

def isDirectory (d : Disk) (p : Path) : Bool :=
  match d.lookup true p with
  | .ok (_, node) => node.content == .directory
  | .error _ => false

def contains (d : Disk) (p : Path) : Bool := (d.lookup true p).isOk

def makeDir (p : Path) (d : Disk) : Except Failure Disk := do
  match ← d.above p with
  | (place, .name name) =>
    if d.nodes.contains (place ++ [name]) then .error (.system .present)
    else .ok (d.link place name .directory)
  | _ => .error (.system .present)

/-- Makes a directory in one that is there, or accepts that it is there. -/
def ensureDir (p : Path) (d : Disk) : Except Failure Unit × Disk :=
  match makeDir p d with
  | .ok d => (.ok (), d)
  | .error e => if d.isDirectory p then (.ok (), d) else (.error e, d)

/-- The path, what holds it, and so on up, as far as directories have to be made. -/
def lineage : Nat → Path → List Path
  | 0, p => [p]
  | rounds + 1, p =>
    match p.parent? with
    | none => [p]
    | some up => if up.isEmpty then [p] else p :: lineage rounds up

/-- Makes the directories of a list from its end; what is missing above is made first. -/
def makeChain : List Path → Disk → Except Failure Unit × Disk
  | [], d => (.error (.described .invalidInput "failed to create whole tree"), d)
  | p :: up, d =>
    match makeDir p d with
    | .ok d => (.ok (), d)
    | .error e =>
      if e.kind = .notFound then
        match up with
        | [] => ensureDir p d
        | _ =>
          match makeChain up d with
          | (.error e, d) => (.error e, d)
          | (.ok (), d) => ensureDir p d
      else if d.isDirectory p then (.ok (), d)
      else (.error e, d)

def createDirAll (p : Path) (d : Disk) : Except Failure Unit × Disk :=
  if p.isEmpty then (.ok (), d) else makeChain (lineage p.bytes.length p) d

def childNames (d : Disk) (place : DiskPlace) : List (List UInt8 × DiskNode) :=
  d.nodes.entries.filterMap fun e =>
    match e.1.getLast? with
    | some name => if e.1.dropLast = place then some (name, e.2) else none
    | none => none

def readDir (d : Disk) (p : Path) : Except Failure (List (List UInt8 × DiskNode)) := do
  let (place, node) ← d.lookup true p
  if node.content = .directory then .ok (d.childNames place) else .error (.system .notDirectory)

def readFile (d : Disk) (p : Path) : Except Failure (List UInt8) := do
  match (← d.lookup true p).2.content with
  | .file data => .ok data
  | _ => .error (.system .isDirectory)

/-- Follows links from the last step of a byte string to the place of a file to be written. -/
def writePlace (d : Disk) (links : Nat) (here : DiskPlace) (bytes : List UInt8) :
    Except Failure (DiskPlace × List UInt8) :=
  match d.aboveFrom here bytes with
  | .error e => .error e
  | .ok (place, .name name) =>
    if bytes.getLast? = some Path.separator then .error (.system .isDirectory)
    else
      match d.content? (place ++ [name]) with
      | some (.symlink target) =>
        match links with
        | 0 => .error (.system .loop)
        | links + 1 => d.writePlace links place target
      | _ => .ok (place, name)
  | .ok _ => .error (.system .isDirectory)

/-- Opens a file to be written anew, and tells its place. -/
def openNew (p : Path) (d : Disk) : Except Failure (DiskPlace × Disk) := do
  checkPath p
  let (place, name) ← d.writePlace maxLinks d.current p.bytes
  let opened ←
    match d.content? (place ++ [name]) with
    | none => .ok (d.link place name (.file []))
    | some .directory => .error (.system .isDirectory)
    | some _ => .ok (d.set (place ++ [name]) (.file []))
  -- links are counted over the whole path, those above its last step included
  if opened.contains p then .ok (place ++ [name], opened) else .error (.system .loop)

def writeFile (p : Path) (data : List UInt8) (d : Disk) : Except Failure Unit × Disk :=
  match openNew p d with
  | .error e => (.error e, d)
  | .ok (place, d) => (.ok (), d.set place (.file data))

def noFile : Failure :=
  .described .invalidInput "the source path is neither a regular file nor a symlink to a regular file"

/-- Copies a file. The target is emptied first, so a file copied to itself ends empty. -/
def copyFile (source target : Path) (d : Disk) : Except Failure Nat × Disk :=
  match d.lookup true source with
  | .error e => (.error e, d)
  | .ok (sourcePlace, node) =>
    match node.content with
    | .file data =>
      match openNew target d with
      | .error e => (.error e, d)
      | .ok (place, d) =>
        let written := if place = sourcePlace then [] else data
        (.ok written.length, d.set place (.file written))
    | _ => (.error noFile, d)

def dropBelow (d : Disk) (place : DiskPlace) : Disk :=
  if d.nodes.entries.any (fun e => e.1 != place && place.isPrefixOf e.1) then
    { d with nodes := d.nodes.filterKeys (fun l => l == place || !place.isPrefixOf l) }.touch place
  else d

def removeDir (p : Path) (d : Disk) : Except Failure Disk := do
  match ← d.above p with
  | (_, .root) => .error (.system .busy)
  | (_, .dot) => .error (.system .invalid)
  | (_, .dotDot) => .error (.system .notEmpty)
  | (place, .name name) =>
    match d.nodes.get? (place ++ [name]) with
    | none => .error (.system .noEntry)
    | some node =>
      if node.content = .directory then
        .ok ({ d with nodes := d.nodes.erase (place ++ [name]) }.touch place)
      else .error (.system .notDirectory)

def removeDirAll (p : Path) (d : Disk) : Except Failure Unit × Disk :=
  match d.lookup false p with
  | .error e => (.error e, d)
  | .ok (place, _) =>
    let d := d.dropBelow place
    match removeDir p d with
    | .ok d => (.ok (), d)
    | .error e => if e.kind = .notFound then (.ok (), d) else (.error e, d)

/-- Makes a link; its target need not exist. -/
def makeSymlink (target : List UInt8) (p : Path) (d : Disk) : Except Failure Disk := do
  match ← d.above p with
  | (place, .name name) =>
    if d.nodes.contains (place ++ [name]) then .error (.system .present)
    else if p.bytes.getLast? = some Path.separator then .error (.system .noEntry)
    else .ok (d.link place name (.symlink target))
  | _ => .error (.system .present)

/-- Sets the time of a node; a link's own time, not that of what it leads to. -/
def setModified (p : Path) (modified : Instant) (d : Disk) : Except Failure Disk := do
  let (place, _) ← d.lookup false p
  .ok { d with nodes := d.nodes.modify place ({ · with modified }) }

def readText (d : Disk) (p : Path) : Except Failure String := do
  match Utf8.decode? (← d.readFile p) with
  | some text => .ok text
  | none => .error (.described .invalidData "stream did not contain valid UTF-8")

end Disk

end IncrementalBackup
