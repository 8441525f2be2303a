import IncrementalBackup.Dedup.Key
import IncrementalBackup.Dedup.Record
import IncrementalBackup.Text.Quoted

/-!
# The store of package files

The store keeps one directory for each package and key, `<root>/<package>/<key>`, with the files
under their own names. Storing reuses a directory that has a file for every name; otherwise what is
there is removed, the files are copied, and their names are checked again. Pruning removes the
directories that no record of the package points at.
-/

namespace IncrementalBackup

inductive DedupError where
  | noApks
  | duplicateName (name : String)
  | invalidPackage (package : String)
  | incomplete (key : DedupKey) (missing : List String)
  | access (error : AccessError)
deriving DecidableEq, Repr

namespace DedupError

def message : DedupError → String
  | noApks => "no APK files given"
  | duplicateName name => "more than one APK named '" ++ name ++ "'"
  | invalidPackage package => "invalid package name: '" ++ package ++ "'"
  | incomplete key missing =>
    "dedup directory <key='" ++ key.text ++ "'> is missing files after copy: " ++
      Text.quotedList missing
  | access error => error.message

end DedupError

structure StoredApks where
  key : DedupKey
  dir : Path
  reused : Bool
  bytesCopied : Nat
deriving DecidableEq, Repr

structure PruneReport where
  removed : List DedupKey
  failed : List DedupKey
deriving DecidableEq, Repr

namespace Dedup

def fileNames (entries : List Entry) : List String :=
  (entries.filter (fun e => e.kind == .file)).map (·.name)

/-- Whether a directory has a file for the name of each path. A listing that fails has none. -/
def verifyMatch (view : View) (dir : Path) (paths : List Path) : Bool :=
  if !view.resolvesToDirectory dir then false
  else
    match view.readDir dir with
    | .error _ => false
    | .ok entries =>
      paths.all fun p =>
        match p.fileName? with
        | some name => (fileNames entries).contains (Utf8.lossy name)
        | none => false

def shownName (p : Path) : String :=
  match p.fileName? with
  | some name => Utf8.lossy name
  | none => p.display

def missingNames (view : View) (dir : Path) (paths : List Path) : List String :=
  let present := match view.readDir dir with
    | .ok entries => fileNames entries
    | .error _ => []
  (paths.map shownName).filter (fun name => !present.contains name)

/-- The first name that occurs a second time; `seen` holds the names before. -/
def repeatedName? (seen : List (List UInt8)) : List (List UInt8) → Option (List UInt8)
  | [] => none
  | name :: rest => if name ∈ seen then some name else repeatedName? (name :: seen) rest

def duplicateName? (paths : List Path) : Option String :=
  (repeatedName? [] (paths.filterMap Path.fileName?)).map Utf8.lossy

def isPackageName (package : String) : Bool :=
  match (Path.ofString package).components with
  | [.name _] => true
  | _ => false

end Dedup

structure DedupStore where
  root : Path
  config : DedupConfig
deriving Repr

namespace DedupStore

open Dedup

variable {σ : Type} [Storage σ]

def packageDir (s : DedupStore) (package : String) : Except DedupError Path :=
  if isPackageName package then .ok (s.root.join (.ofString package))
  else .error (.invalidPackage package)

def dedupDir (s : DedupStore) (package : String) (key : DedupKey) : Except DedupError Path :=
  (s.packageDir package).map (·.join key.path)

/-- Copies each file under its own name and adds up the bytes; a copy that fails adds nothing. -/
def copyAll (dir : Path) : List Path → σ → Nat × σ
  | [], fs => (0, fs)
  | p :: rest, fs =>
    match p.fileName? with
    | none => copyAll dir rest fs
    | some name =>
      match Storage.copyFile p (dir.join ⟨name⟩) fs with
      | (.ok bytes, fs) =>
        let (more, fs) := copyAll dir rest fs
        (bytes + more, fs)
      | (.error _, fs) => copyAll dir rest fs

/-- Removes what an interrupted copy has left. -/
def clear (dir : Path) (fs : σ) : Except AccessError Unit × σ :=
  if (Storage.view fs).contains dir then Storage.removeDirAll dir fs else (.ok (), fs)

def fill (key : DedupKey) (dir : Path) (paths : List Path) (fs : σ) :
    Except DedupError StoredApks × σ :=
  match clear dir fs with
  | (.error e, fs) => (.error (.access e), fs)
  | (.ok (), fs) =>
    match Storage.createDirAll dir fs with
    | (.error e, fs) => (.error (.access e), fs)
    | (.ok (), fs) =>
      let (bytes, fs) := copyAll dir paths fs
      match missingNames (Storage.view fs) dir paths with
      | [] => (.ok ⟨key, dir, false, bytes⟩, fs)
      | missing => (.error (.incomplete key missing), (Storage.removeDirAll dir fs).2)

def storeApks (s : DedupStore) (package : String) (set : ApkSet) (fs : σ) :
    Except DedupError StoredApks × σ :=
  if set.filePaths = [] then (.error .noApks, fs)
  else
    match duplicateName? set.filePaths with
    | some name => (.error (.duplicateName name), fs)
    | none =>
      match s.packageDir package with
      | .error e => (.error e, fs)
      | .ok packageDir =>
        let key := computeKey (Storage.view fs) set s.config
        let dir := packageDir.join key.path
        if verifyMatch (Storage.view fs) dir set.filePaths then (.ok ⟨key, dir, true, 0⟩, fs)
        else fill key dir set.filePaths fs

def dedupKeys (s : DedupStore) (package : String) (view : View) : Except DedupError (List DedupKey) :=
  match s.packageDir package with
  | .error e => .error e
  | .ok dir =>
    match view.readDir dir with
    | .error (.notFound _) => .ok []
    | .error e => .error (.access e)
    | .ok entries =>
      .ok (((entries.filter (fun e => e.kind == .directory)).map (fun e => DedupKey.mk e.name)).mergeSort
        (fun a b => (DedupKey.compare a b).isLE))

/-- The directories of a package that no record of the package points at. -/
def unreferenced (s : DedupStore) (package : String) (records : List BackupRecord) (view : View) :
    Except DedupError (List DedupKey) :=
  let own := records.filter (fun r => r.packageName == package)
  (s.dedupKeys package view).map (·.filter (fun key => countReferences own key.text == 0))

def removeAll (packageDir : Path) : List DedupKey → σ → PruneReport × σ
  | [], fs => (⟨[], []⟩, fs)
  | key :: rest, fs =>
    match Storage.removeDirAll (packageDir.join key.path) fs with
    | (.ok (), fs) =>
      let (report, fs) := removeAll packageDir rest fs
      ({ report with removed := key :: report.removed }, fs)
    | (.error _, fs) =>
      let (report, fs) := removeAll packageDir rest fs
      ({ report with failed := key :: report.failed }, fs)

def pruneUnreferenced (s : DedupStore) (package : String) (records : List BackupRecord) (fs : σ) :
    Except DedupError PruneReport × σ :=
  match s.packageDir package with
  | .error e => (.error e, fs)
  | .ok packageDir =>
    match s.unreferenced package records (Storage.view fs) with
    | .error e => (.error e, fs)
    | .ok keys =>
      let (report, fs) := removeAll packageDir keys fs
      (.ok report, fs)

end DedupStore

end IncrementalBackup
