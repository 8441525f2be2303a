/-!
# Ordered maps

A map is a list of pairs whose keys increase strictly. The order is part of the type, so a map
lists its entries in one way only, and two maps with the same look-ups are equal.
-/

namespace IncrementalBackup

structure OrderedMap (κ : Type) (ν : Type) (cmp : κ → κ → Ordering) where
  entries : List (κ × ν)
  increasing : entries.Pairwise (fun a b => cmp a.1 b.1 = .lt)
deriving DecidableEq

namespace OrderedMap

variable {κ ν : Type} {cmp : κ → κ → Ordering}

def lookup (cmp : κ → κ → Ordering) (k : κ) : List (κ × ν) → Option ν
  | [] => none
  | (k', v) :: rest =>
    match cmp k k' with
    | .eq => some v
    | .lt => none
    | .gt => lookup cmp k rest

/-- Puts a pair in its place, over a pair with the same key. -/
def place (cmp : κ → κ → Ordering) (k : κ) (v : ν) : List (κ × ν) → List (κ × ν)
  | [] => [(k, v)]
  | (k', v') :: rest =>
    match cmp k k' with
    | .lt => (k, v) :: (k', v') :: rest
    | .eq => (k, v) :: rest
    | .gt => (k', v') :: place cmp k v rest

theorem mem_place {k : κ} {v : ν} {e : κ × ν} {l : List (κ × ν)} (he : e ∈ place cmp k v l) :
    e = (k, v) ∨ e ∈ l := by
  induction l with
  | nil => simpa [place] using he
  | cons hd tl ih =>
    obtain ⟨k', v'⟩ := hd
    rw [place] at he
    split at he
    · simpa using he
    · rcases List.mem_cons.mp he with h | h
      · exact .inl h
      · exact .inr (List.mem_cons_of_mem _ h)
    · rcases List.mem_cons.mp he with h | h
      · exact .inr (h ▸ List.mem_cons_self)
      · rcases ih h with h' | h'
        · exact .inl h'
        · exact .inr (List.mem_cons_of_mem _ h')

theorem pairwise_place [Std.TransCmp cmp] [Std.LawfulEqCmp cmp] (k : κ) (v : ν)
    {l : List (κ × ν)} (hl : l.Pairwise (fun a b => cmp a.1 b.1 = .lt)) :
    (place cmp k v l).Pairwise (fun a b => cmp a.1 b.1 = .lt) := by
  induction l with
  | nil => simp [place]
  | cons hd tl ih =>
    obtain ⟨k', v'⟩ := hd
    obtain ⟨hhd, htl⟩ := List.pairwise_cons.mp hl
    rw [place]
    split
    · rename_i hk
      refine List.pairwise_cons.mpr ⟨fun e he => ?_, hl⟩
      rcases List.mem_cons.mp he with rfl | he
      · exact hk
      · exact Std.TransCmp.lt_trans hk (hhd e he)
    · rename_i hk
      obtain rfl := Std.LawfulEqCmp.eq_of_compare hk
      exact List.pairwise_cons.mpr ⟨hhd, htl⟩
    · rename_i hk
      refine List.pairwise_cons.mpr ⟨fun e he => ?_, ih htl⟩
      rcases mem_place he with rfl | he
      · exact Std.OrientedCmp.gt_iff_lt.mp hk
      · exact hhd e he

def empty : OrderedMap κ ν cmp := ⟨[], .nil⟩

instance : EmptyCollection (OrderedMap κ ν cmp) := ⟨empty⟩
instance : Inhabited (OrderedMap κ ν cmp) := ⟨empty⟩

def get? (m : OrderedMap κ ν cmp) (k : κ) : Option ν := lookup cmp k m.entries

def contains (m : OrderedMap κ ν cmp) (k : κ) : Bool := (m.get? k).isSome

def size (m : OrderedMap κ ν cmp) : Nat := m.entries.length

def isEmpty (m : OrderedMap κ ν cmp) : Bool := m.entries.isEmpty

def insert [Std.TransCmp cmp] [Std.LawfulEqCmp cmp] (m : OrderedMap κ ν cmp) (k : κ) (v : ν) :
    OrderedMap κ ν cmp :=
  ⟨place cmp k v m.entries, pairwise_place k v m.increasing⟩

def insertIfNew [Std.TransCmp cmp] [Std.LawfulEqCmp cmp] (m : OrderedMap κ ν cmp) (k : κ) (v : ν) :
    OrderedMap κ ν cmp :=
  if m.contains k then m else m.insert k v

def filterKeys (m : OrderedMap κ ν cmp) (keep : κ → Bool) : OrderedMap κ ν cmp :=
  ⟨m.entries.filter (fun e => keep e.1), m.increasing.filter _⟩

def erase (m : OrderedMap κ ν cmp) (k : κ) : OrderedMap κ ν cmp :=
  m.filterKeys (fun k' => cmp k k' != .eq)

def modify [Std.TransCmp cmp] [Std.LawfulEqCmp cmp] (m : OrderedMap κ ν cmp) (k : κ) (f : ν → ν) :
    OrderedMap κ ν cmp :=
  match m.get? k with
  | some v => m.insert k (f v)
  | none => m

/-- The entries whose key is not below `k`, in order. -/
def entriesFrom (m : OrderedMap κ ν cmp) (k : κ) : List (κ × ν) :=
  m.entries.dropWhile (fun e => cmp e.1 k == .lt)

/-- The map of a list of pairs; a later pair wins over an earlier one with the same key. -/
def ofList [Std.TransCmp cmp] [Std.LawfulEqCmp cmp] (l : List (κ × ν)) : OrderedMap κ ν cmp :=
  l.foldl (fun m e => m.insert e.1 e.2) ∅

end OrderedMap

end IncrementalBackup
