import IncrementalBackup.Path.Basic
import IncrementalBackup.Storage.Failure
import IncrementalBackup.Text.Decimal
import IncrementalBackup.Time.Instant

/-!
# Access to a tree of files

Scanning and storing go through two interfaces. A view answers questions about a tree that does not
change while it is asked. A storage is a tree with a view and with operations that change it; an
operation that fails may have changed the tree before.
-/

namespace IncrementalBackup

inductive EntryKind where
  | file
  | directory
  | symlink
deriving DecidableEq, Repr

structure Metadata where
  kind : EntryKind
  size : Nat
  modified : Option Instant
deriving DecidableEq, Repr

namespace Metadata

def isDirectory (m : Metadata) : Bool := m.kind == .directory

end Metadata

structure Entry where
  name : String
  kind : EntryKind
  size : Nat
  modified : Option Instant
deriving DecidableEq, Repr

inductive BackendType where
  | disk
  | memory
  | external
deriving DecidableEq, Repr

structure StorageFailure where
  path : Path
  cause : Failure
  context : Option String
deriving DecidableEq, Repr

inductive AccessError where
  | notFound (path : Path)
  | notADirectory (path : Path)
  | storage (failure : StorageFailure)
deriving DecidableEq, Repr

namespace SystemCode

def message (c : SystemCode) : String := c.text ++ " (os error " ++ Decimal.ofNat c.number ++ ")"

end SystemCode

namespace Failure

def message : Failure → String
  | bare kind => kind.message
  | described _ text => text
  | system code => code.message

end Failure

namespace StorageFailure

def message (f : StorageFailure) : String :=
  match f.context with
  | some context =>
    "storage access failed while " ++ context ++ " at '" ++ f.path.display ++ "': " ++
      f.cause.message
  | none => "storage access failed at '" ++ f.path.display ++ "': " ++ f.cause.message

end StorageFailure

namespace AccessError

/-- A missing file is told apart from every other failure. -/
def ofFailure (path : Path) (cause : Failure) (context : Option String) : AccessError :=
  if cause.kind = .notFound then .notFound path else .storage ⟨path, cause, context⟩

def isNotFound : AccessError → Bool
  | notFound _ => true
  | _ => false

def message : AccessError → String
  | notFound path => "path not found: '" ++ path.display ++ "'"
  | notADirectory path => "not a directory: '" ++ path.display ++ "'"
  | storage failure => failure.message

end AccessError

structure View where
  metadata : Path → Except AccessError Metadata
  /-- Like `metadata`, but for what a link leads to. -/
  metadataFollow : Path → Except AccessError Metadata
  readDir : Path → Except AccessError (List Entry)
  readPrefix : Path → Nat → Except AccessError (List UInt8)

namespace View

def contains (v : View) (p : Path) : Bool := (v.metadata p).isOk

def isDirectory (v : View) (p : Path) : Bool :=
  match v.metadata p with
  | .ok m => m.isDirectory
  | .error _ => false

/-- Whether a path is a directory or a link that leads to one. -/
def resolvesToDirectory (v : View) (p : Path) : Bool :=
  match v.metadataFollow p with
  | .ok m => m.isDirectory
  | .error _ => false

end View

class Storage (σ : Type) where
  backend : σ → BackendType
  view : σ → View
  createDirAll : Path → σ → Except AccessError Unit × σ
  copyFile : Path → Path → σ → Except AccessError Nat × σ
  removeDirAll : Path → σ → Except AccessError Unit × σ

end IncrementalBackup
