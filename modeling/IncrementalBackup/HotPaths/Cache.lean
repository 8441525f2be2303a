import IncrementalBackup.Evaluation.Category
import IncrementalBackup.OrderedMap
import IncrementalBackup.Path.Basic

/-!
# The hot path cache

For every package and category the path where its data changed last, and for every package the
category that changed last. Entries are replaced one by one and never become invalid by themselves.
-/

namespace IncrementalBackup

structure HotPathKey where
  package : String
  category : DataCategory
deriving DecidableEq, Repr

namespace HotPathKey

def compare (a b : HotPathKey) : Ordering :=
  compareLex (compareBy package Utf8.compare) (compareBy category DataCategory.compare) a b

instance : Std.TransCmp compare :=
  inferInstanceAs (Std.TransCmp
    (compareLex (compareBy package Utf8.compare) (compareBy category DataCategory.compare)))

instance : Std.LawfulEqCmp compare := lawfulEqCmp_of_parts fun a b hp hc => by
  obtain ⟨ap, ac⟩ := a
  obtain ⟨bp, bc⟩ := b
  obtain rfl : ap = bp := part_eq_of_compareBy_eq hp
  obtain rfl : ac = bc := part_eq_of_compareBy_eq hc
  rfl

end HotPathKey

structure HotPathCache where
  paths : OrderedMap HotPathKey Path HotPathKey.compare
  lastChanged : OrderedMap String DataCategory Utf8.compare

namespace HotPathCache

def empty : HotPathCache := ⟨∅, ∅⟩

instance : EmptyCollection HotPathCache := ⟨empty⟩

def get? (c : HotPathCache) (package : String) (category : DataCategory) : Option Path :=
  c.paths.get? ⟨package, category⟩

def put (c : HotPathCache) (package : String) (category : DataCategory) (path : Path) :
    HotPathCache :=
  { c with paths := c.paths.insert ⟨package, category⟩ path }

def lastChangedCategory? (c : HotPathCache) (package : String) : Option DataCategory :=
  c.lastChanged.get? package

/-- Stores a hot path and makes its category the last one changed. -/
def recordChange (c : HotPathCache) (package : String) (category : DataCategory) (path : Path) :
    HotPathCache :=
  { c.put package category path with lastChanged := c.lastChanged.insert package category }

def forget (c : HotPathCache) (package : String) : HotPathCache :=
  ⟨c.paths.filterKeys (fun k => k.package != package), c.lastChanged.erase package⟩

def size (c : HotPathCache) : Nat := c.paths.size

def isEmpty (c : HotPathCache) : Bool := c.paths.isEmpty

end HotPathCache

end IncrementalBackup
