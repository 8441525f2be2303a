/-!
# Causes of failed storage calls

A call fails with a bare kind of failure, with a kind and a text of its own, or with a code of the
operating system, which has a kind too.
-/

namespace IncrementalBackup

inductive FailureKind where
  | notFound
  | permissionDenied
  | alreadyExists
  | invalidInput
  | invalidData
  | interrupted
  | unexpectedEnd
  | notADirectory
  | isADirectory
  | directoryNotEmpty
  | resourceBusy
  | linkLoop
  | nameTooLong
deriving DecidableEq, Repr

namespace FailureKind

def message : FailureKind → String
  | notFound => "entity not found"
  | permissionDenied => "permission denied"
  | alreadyExists => "entity already exists"
  | invalidInput => "invalid input parameter"
  | invalidData => "invalid data"
  | interrupted => "operation interrupted"
  | unexpectedEnd => "unexpected end of file"
  | notADirectory => "not a directory"
  | isADirectory => "is a directory"
  | directoryNotEmpty => "directory not empty"
  | resourceBusy => "resource busy"
  | linkLoop => "filesystem loop or indirection limit (e.g. symlink loop)"
  | nameTooLong => "invalid filename"

end FailureKind

/-- The codes of the operating system that storage calls answer. -/
inductive SystemCode where
  | noEntry
  | busy
  | present
  | notDirectory
  | isDirectory
  | invalid
  | nameTooLong
  | notEmpty
  | loop
deriving DecidableEq, Repr

namespace SystemCode

def number : SystemCode → Nat
  | noEntry => 2
  | busy => 16
  | present => 17
  | notDirectory => 20
  | isDirectory => 21
  | invalid => 22
  | nameTooLong => 36
  | notEmpty => 39
  | loop => 40

def text : SystemCode → String
  | noEntry => "No such file or directory"
  | busy => "Device or resource busy"
  | present => "File exists"
  | notDirectory => "Not a directory"
  | isDirectory => "Is a directory"
  | invalid => "Invalid argument"
  | nameTooLong => "File name too long"
  | notEmpty => "Directory not empty"
  | loop => "Too many levels of symbolic links"

def kind : SystemCode → FailureKind
  | noEntry => .notFound
  | busy => .resourceBusy
  | present => .alreadyExists
  | notDirectory => .notADirectory
  | isDirectory => .isADirectory
  | invalid => .invalidInput
  | nameTooLong => .nameTooLong
  | notEmpty => .directoryNotEmpty
  | loop => .linkLoop

end SystemCode

inductive Failure where
  | bare (kind : FailureKind)
  | described (kind : FailureKind) (text : String)
  | system (code : SystemCode)
deriving DecidableEq, Repr

namespace Failure

def kind : Failure → FailureKind
  | bare kind => kind
  | described kind _ => kind
  | system code => code.kind

end Failure

end IncrementalBackup
