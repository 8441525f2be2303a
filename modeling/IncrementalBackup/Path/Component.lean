import IncrementalBackup.Comparison

/-!
# Components of paths

A path names a place by components. Their order puts the root first, then the current directory,
then the parent directory, then names by their bytes; lists of components are ordered
lexicographically, so everything below a place follows it directly.
-/

namespace IncrementalBackup

inductive Component where
  | root
  | current
  | parent
  | name (bytes : List UInt8)
deriving DecidableEq, Repr

namespace Component

def rank : Component → Nat
  | root => 0
  | current => 1
  | parent => 2
  | name _ => 3

def label : Component → List UInt8
  | name bytes => bytes
  | _ => []

theorem eq_of_rank_label {a b : Component} (hr : a.rank = b.rank) (hl : a.label = b.label) :
    a = b := by
  cases a <;> cases b <;> simp_all [rank, label]

def compare (a b : Component) : Ordering :=
  compareLex (compareBy rank compareNat) (compareBy label compareBytes) a b

instance : Std.TransCmp compare :=
  inferInstanceAs (Std.TransCmp (compareLex (compareBy rank compareNat) (compareBy label compareBytes)))

instance : Std.LawfulEqCmp compare := lawfulEqCmp_of_parts fun _ _ hr hl =>
  eq_of_rank_label (part_eq_of_compareBy_eq hr) (part_eq_of_compareBy_eq hl)

def isName : Component → Bool
  | name _ => true
  | _ => false

end Component

/-- A place in a tree, as the components that lead to it. -/
abbrev Location : Type := List Component

namespace Location

def compare (a b : Location) : Ordering := List.compareLex Component.compare a b

instance : Std.TransCmp compare := inferInstanceAs (Std.TransCmp (List.compareLex Component.compare))

instance : Std.LawfulEqCmp compare :=
  inferInstanceAs (Std.LawfulEqCmp (List.compareLex Component.compare))

/-- The place that holds this one; the root and the empty place are held by none. -/
def parent? (l : Location) : Option Location :=
  match l.getLast? with
  | none | some .root => none
  | some _ => some l.dropLast

def fileName? (l : Location) : Option (List UInt8) :=
  match l.getLast? with
  | some (.name bytes) => some bytes
  | _ => none

def startsWith (l above : Location) : Bool := above.isPrefixOf l

/-- The places above this one, the empty place left out, the topmost first. -/
def ancestors (l : Location) : List Location :=
  (List.range l.length).filterMap (fun n => if n = 0 then none else some (l.take n))

end Location

end IncrementalBackup
