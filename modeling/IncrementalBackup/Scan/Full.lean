import IncrementalBackup.Scan.Basic
import IncrementalBackup.Scan.Queue

/-!
# The full scan

The full scan keeps a queue of the nodes that listings have named, at first the root alone. It takes
the first node and stops there if it is newer than the threshold; if the node is a directory above
the greatest depth, what is listed in it goes to the end of the queue.
-/

namespace IncrementalBackup

/-- A node that a listing has named, by its path from the root of the scan. -/
structure ScanNode where
  relative : Path
  depth : Nat
  kind : EntryKind
  modified : Option Instant
deriving Repr

namespace ScanNode

def ofRoot (modified : Option Instant) : ScanNode := ⟨⟨[]⟩, 0, .directory, modified⟩

def address (n : ScanNode) (root : Path) : Path :=
  if n.relative.isEmpty then root else root.join n.relative

def child (n : ScanNode) (e : Entry) : ScanNode :=
  ⟨n.relative.join (.ofString e.name), n.depth + 1, e.kind, e.modified⟩

def isOpened (n : ScanNode) (maxDepth : Nat) : Bool :=
  n.kind == .directory && decide (n.depth < maxDepth)

/-- How many levels a scan down to a depth may see from this node on. -/
def height (n : ScanNode) (maxDepth : Nat) : Nat := maxDepth + 1 - n.depth

theorem height_child_lt {n : ScanNode} {maxDepth : Nat} (h : n.isOpened maxDepth = true)
    (e : Entry) : (n.child e).height maxDepth < n.height maxDepth := by
  have hdepth : n.depth < maxDepth := of_decide_eq_true (Bool.and_eq_true_iff.mp h).2
  simp only [height, child]
  omega

/-- Where a change of this node is reported. -/
def reportPath (n : ScanNode) : Path :=
  match n.relative.parent? with
  | some above => if above.isEmpty then .here else above
  | none => .here

end ScanNode

namespace Scan

/-- Goes through a queue of nodes. A directory that cannot be listed is passed over. -/
def walk (view : View) (request : ScanRequest) :
    List ScanNode → ScanStats → ScanResult × ScanStats
  | [], stats => (.unchanged, stats)
  | node :: rest, stats =>
    match newer? request.threshold node.modified with
    | some time => (.changed node.reportPath time, stats.visited)
    | none =>
      if _h : node.isOpened request.maxDepth then
        match view.readDir (node.address request.root) with
        | .ok entries => walk view request (rest ++ entries.map node.child) stats.visited.listed
        | .error _ => walk view request rest stats.visited.failed
      else walk view request rest stats.visited
termination_by queue => replaced_wf.wrap (queue.map (·.height request.maxDepth))
decreasing_by
  · change Replaced ((rest ++ entries.map node.child).map (·.height request.maxDepth)) _
    rw [List.map_append]
    refine ⟨_, _, _, rfl, rfl, fun m hm => ?_⟩
    obtain ⟨n, hn, rfl⟩ := List.mem_map.mp hm
    obtain ⟨e, -, rfl⟩ := List.mem_map.mp hn
    exact ScanNode.height_child_lt _h e
  · exact ⟨_, _, [], rfl, (List.append_nil _).symm, nofun⟩
  · exact ⟨_, _, [], rfl, (List.append_nil _).symm, nofun⟩

def full (view : View) (request : ScanRequest) (rootModified : Option Instant) (stats : ScanStats) :
    ScanResult × ScanStats :=
  walk view request [.ofRoot rootModified] stats

end Scan

end IncrementalBackup
