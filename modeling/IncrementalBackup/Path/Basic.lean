import IncrementalBackup.Path.Component
import IncrementalBackup.Text.Utf8

/-!
# Paths

A path is a byte string. What it means is its list of components: doubled and trailing separators
and inner `.` vanish, a leading `.` and every `..` stay. Paths are compared by their components;
their bytes matter only when they are shown or joined.
-/

namespace IncrementalBackup

structure Path where
  bytes : List UInt8
deriving DecidableEq, Repr

namespace Path

def separator : UInt8 := 0x2F

def dot : List UInt8 := [0x2E]

def dotDot : List UInt8 := [0x2E, 0x2E]

def here : Path := ⟨dot⟩

def ofString (s : String) : Path := ⟨Utf8.encode s⟩

def display (p : Path) : String := Utf8.lossy p.bytes

def text? (p : Path) : Option String := Utf8.decode? p.bytes

def isEmpty (p : Path) : Bool := p.bytes.isEmpty

def isAbsolute (p : Path) : Bool := p.bytes.head? == some separator

/-- The pieces of a byte string between separators; `current` holds the bytes of the first piece. -/
def splitFrom (current : List UInt8) : List UInt8 → List (List UInt8)
  | [] => [current]
  | b :: rest =>
    if b = separator then current :: splitFrom [] rest else splitFrom (current ++ [b]) rest

def split (bytes : List UInt8) : List (List UInt8) := splitFrom [] bytes

/-- What a piece contributes when it is not the first one of the path. -/
def pieceComponent (piece : List UInt8) : Option Component :=
  if piece = [] ∨ piece = dot then none
  else if piece = dotDot then some .parent
  else some (.name piece)

/-- What a path starts with: the root, the current directory or nothing; and the pieces after it. -/
def lead (p : Path) : List Component × List (List UInt8) :=
  match split p.bytes with
  | [] => ([], [])
  | first :: rest =>
    if first = [] ∧ rest ≠ [] then ([.root], rest)
    else if first = dot then ([.current], rest)
    else ([], first :: rest)

def components (p : Path) : Location :=
  let (start, pieces) := p.lead
  start ++ pieces.filterMap pieceComponent

/-- The path `name` seen from `base`: an absolute one stays, another one is put behind a separator. -/
def join (base name : Path) : Path :=
  if name.isAbsolute then name
  else
    match base.bytes.getLast? with
    | none => name
    | some last => if last = separator then ⟨base.bytes ++ name.bytes⟩
        else ⟨base.bytes ++ separator :: name.bytes⟩

def unsplit : List (List UInt8) → List UInt8
  | [] => []
  | [piece] => piece
  | piece :: rest => piece ++ separator :: unsplit rest

def dropVoid (pieces : List (List UInt8)) : List (List UInt8) :=
  (pieces.reverse.dropWhile (fun piece => (pieceComponent piece).isNone)).reverse

def parent? (p : Path) : Option Path :=
  let (start, pieces) := p.lead
  match dropVoid pieces, start with
  | [], [.current] => some ⟨[]⟩
  | [], _ => none
  | kept, _ =>
    let above := dropVoid kept.dropLast
    match start, above with
    | [.root], _ => some ⟨separator :: unsplit above⟩
    | [.current], [] => some ⟨dot⟩
    | [.current], _ => some ⟨dot ++ separator :: unsplit above⟩
    | _, _ => some ⟨unsplit above⟩

def fileName? (p : Path) : Option (List UInt8) := p.components.fileName?

def same (p q : Path) : Bool := p.components == q.components

def startsWith (p above : Path) : Bool := p.components.startsWith above.components

end Path

end IncrementalBackup
