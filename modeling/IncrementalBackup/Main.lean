import IncrementalBackup.CommandLine.Run
import IncrementalBackup.Storage.LocalTree

/-!
# The program

Loads what a command line may look at from the machine, runs the command line on it, and brings the
changes back to the machine. A directory is loaded with everything below it. Only files that the
command line names are loaded with their contents; of all others the name and the time count.
-/

namespace IncrementalBackup.Machine

def entryAt (place : DiskPlace) : IO.FS.DirEntry :=
  ⟨"/", String.intercalate "/" (place.map Utf8.lossy)⟩

def placeOf (name : String) : DiskPlace :=
  (Path.split (Utf8.encode name)).filter (fun piece => piece ≠ [] ∧ piece ≠ Path.dot)

def instantOf (t : IO.FS.SystemTime) : Instant := .ofSeconds t.sec t.nsec.toNat

/-- The place that a link leads to, as bytes; a link that leads nowhere leads to itself. -/
def targetOf (e : IO.FS.DirEntry) : IO (List UInt8) := do
  match ← (IO.FS.realPath e.path).toBaseIO with
  | .ok p => return Utf8.encode p.toString
  | .error _ => return Utf8.encode e.path.toString

/-- Loads one place, with its contents if they count. -/
def loadNode (contents : Bool) (place : DiskPlace) (d : Disk) : IO Disk := do
  let e := entryAt place
  match ← e.path.symlinkMetadata.toBaseIO with
  | .error _ => return d
  | .ok found =>
    let content ← match found.type with
      | .dir => pure DiskContent.directory
      | .symlink => DiskContent.symlink <$> targetOf e
      | _ =>
        if contents then (fun data => .file data.toList) <$> IO.FS.readBinFile e.path
        else pure (.file [])
    return { d with nodes := d.nodes.insert place ⟨content, instantOf found.modified⟩ }

partial def loadBelow (place : DiskPlace) (d : Disk) : IO Disk := do
  match ← (entryAt place).path.readDir.toBaseIO with
  | .error _ => return d
  | .ok entries =>
    entries.foldlM
      (fun d e => do
        let child := place ++ [Utf8.encode e.fileName]
        if d.nodes.contains child then return d
        let d ← loadNode false child d
        if d.content? child = some .directory then loadBelow child d else return d)
      d

def loadPlace (place : DiskPlace) (d : Disk) : IO Disk := do
  let d ← (List.range (place.length + 1)).foldlM (fun d n => loadNode (n = place.length) (place.take n) d) d
  if d.content? place = some .directory then loadBelow place d else return d

def loadPath (p : String) (d : Disk) : IO Disk := do
  let here ← IO.currentDir
  let named := placeOf (here / p).toString
  let d ← loadPlace named d
  match ← (IO.FS.realPath (here / p)).toBaseIO with
  | .error _ => return d
  | .ok found =>
    let place := placeOf found.toString
    if place = named then return d else loadPlace place d

def candidates (args : List String) : List String :=
  args.flatMap fun arg =>
    match arg.toList.dropWhile (· ≠ '=') with
    | _ :: value => [arg, String.ofList value]
    | [] => [arg]

def clock : IO Instant := do
  let (_, file) ← IO.FS.createTempFile
  let found ← file.metadata
  IO.FS.removeFile file
  return instantOf found.modified

def load (home : Path) (args : List String) : IO Disk := do
  let here ← IO.currentDir
  let bare := Disk.empty (placeOf here.toString) (← clock)
  let d ← (candidates args).foldlM (fun d p => loadPath p d) bare
  match CommandLine.readRequest args with
  | .error _ => return d
  | .ok r =>
    let dataDir := r.dataDir.getD (CommandLine.defaultDataDir home)
    let d ← loadPath (dataDir.join Settings.fileName).display d
    let d ← loadPath dataDir.display d
    match (CommandLine.loadSettings home r (LocalTree.ofDisk d)).1 with
    | .error _ => return d
    | .ok s =>
      [s.hotPathsPath, s.dedupRoot, s.dataDir].foldlM (fun d p => loadPath p.display d) d

/-- Removes from the machine what is gone, and writes what has changed. -/
def store (before after : Disk) : IO Unit := do
  for (place, node) in before.nodes.entries.reverse do
    if !after.nodes.contains place then
      let e := entryAt place
      if node.content = .directory then IO.FS.removeDir e.path else IO.FS.removeFile e.path
  for (place, node) in after.nodes.entries do
    let old := before.nodes.get? place
    match node.content with
    | .directory => if old.isNone then IO.FS.createDir (entryAt place).path
    | .file data =>
      if old.map (·.modified) ≠ some node.modified ∨ old.map (·.content) ≠ some (.file data) then
        IO.FS.writeBinFile (entryAt place).path ⟨data.toArray⟩
    | .symlink _ => pure ()

end IncrementalBackup.Machine

open IncrementalBackup in
def main (args : List String) : IO UInt32 := do
  let home := Path.ofString ((← IO.getEnv "HOME").getD "/")
  let before ← Machine.load home args
  let (outcome, after) := CommandLine.run home args (LocalTree.ofDisk before)
  Machine.store before after.disk
  IO.print outcome.output
  for line in outcome.notes do
    IO.eprintln line
  return outcome.exitCode.toUInt32
