import IncrementalBackup.Proofs.Path.Parent
import IncrementalBackup.Scan.HotPath

/-!
# The full scan goes level by level

The queue of the full scan always holds the rest of one level and the beginning of the next. So the
scan looks at the nodes in level order: the root, what is listed in it, what is listed in the
directories among that, and so on. It reports the first newer node in that order, and its counters
count the nodes of the order that it has passed.
-/

namespace IncrementalBackup

theorem newer?_eq_some {threshold : Instant} {modified : Option Instant} {time : Instant} :
    newer? threshold modified = some time ↔ modified = some time ∧ threshold < time := by
  simp [newer?, Option.filter_eq_some_iff]

namespace ScanNode

def IsNewer (n : ScanNode) (threshold : Instant) : Prop :=
  ∃ time, n.modified = some time ∧ threshold < time

instance (n : ScanNode) (threshold : Instant) : Decidable (n.IsNewer threshold) :=
  decidable_of_iff ((newer? threshold n.modified).isSome = true) (by
    rw [Option.isSome_iff_exists]
    exact exists_congr fun _ => newer?_eq_some)

theorem newer?_eq_none {n : ScanNode} {threshold : Instant} :
    newer? threshold n.modified = none ↔ ¬ n.IsNewer threshold := by
  constructor
  · rintro h ⟨time, hnewer⟩
    rw [newer?_eq_some.mpr hnewer] at h
    cases h
  · intro h
    cases hnewer : newer? threshold n.modified with
    | none => rfl
    | some time => exact absurd ⟨time, newer?_eq_some.mp hnewer⟩ h

end ScanNode

namespace Scan

section

variable (view : View) (request : ScanRequest)

/-- The nodes that are listed in a node: none, if it is no directory or cannot be listed. -/
def listing (root : Path) (n : ScanNode) : List ScanNode :=
  if n.kind = .directory then
    match view.readDir (n.address root) with
    | .ok entries => entries.map n.child
    | .error _ => []
  else []

/-- The nodes of a level, then what is listed in them, and so on for `depth` further levels. -/
def levelsFrom (root : Path) : Nat → List ScanNode → List ScanNode
  | 0, level => level
  | depth + 1, level => level ++ levelsFrom root depth (level.flatMap (listing view root))

/-- Everything a scan may look at, level by level. -/
def levelOrder (rootModified : Option Instant) : List ScanNode :=
  levelsFrom view request.root request.maxDepth [.ofRoot rootModified]

def isListed (n : ScanNode) : Bool :=
  n.isOpened request.maxDepth && (view.readDir (n.address request.root)).isOk

def isUnlistable (n : ScanNode) : Bool :=
  n.isOpened request.maxDepth && !(view.readDir (n.address request.root)).isOk

/-- What a scan notes about a node that is not newer. -/
def pass (stats : ScanStats) (n : ScanNode) : ScanStats :=
  if isListed view request n then stats.visited.listed
  else if isUnlistable view request n then stats.visited.failed
  else stats.visited

/-- Goes through nodes that are all known beforehand. -/
def search : List ScanNode → ScanStats → ScanResult × ScanStats
  | [], stats => (.unchanged, stats)
  | n :: rest, stats =>
    match newer? request.threshold n.modified with
    | some time => (.changed n.reportPath time, stats.visited)
    | none => search rest (pass view request stats n)

/-- What a node adds to the queue. -/
def opened (n : ScanNode) : List ScanNode :=
  if n.isOpened request.maxDepth then listing view request.root n else []

end

variable {view : View} {request : ScanRequest}

theorem walk_cons_of_newer {n : ScanNode} {time : Instant}
    (h : newer? request.threshold n.modified = some time) (rest : List ScanNode)
    (stats : ScanStats) :
    walk view request (n :: rest) stats = (.changed n.reportPath time, stats.visited) := by
  rw [walk, h]

theorem walk_cons_of_old {n : ScanNode} (h : newer? request.threshold n.modified = none)
    (rest : List ScanNode) (stats : ScanStats) :
    walk view request (n :: rest) stats =
      walk view request (rest ++ opened view request n) (pass view request stats n) := by
  rw [walk, h]
  by_cases hopened : n.isOpened request.maxDepth = true
  · have hkind : n.kind = .directory := by
      have := (Bool.and_eq_true_iff.mp hopened).1
      simpa using this
    cases hlist : view.readDir (n.address request.root) with
    | ok entries =>
      simp [hopened, opened, listing, hkind, hlist, pass, isListed, Except.isOk, Except.toBool]
    | error e =>
      simp [hopened, opened, listing, hkind, hlist, pass, isListed, isUnlistable, Except.isOk,
        Except.toBool]
  · simp [hopened, opened, pass, isListed, isUnlistable]

/-- If the scan goes on with `more` when a level is done, it goes through the level and then `more`.
What the nodes of the level add to the queue waits behind what is there already. -/
theorem walk_level {more : List ScanNode} (level next : List ScanNode) (stats : ScanStats)
    (h : ∀ stats, walk view request (next ++ level.flatMap (opened view request)) stats =
      search view request more stats) :
    walk view request (level ++ next) stats = search view request (level ++ more) stats := by
  induction level generalizing next stats with
  | nil =>
    have hnext := h stats
    rwa [List.flatMap_nil, List.append_nil] at hnext
  | cons n level ih =>
    rw [List.cons_append, List.cons_append, search]
    cases hnewer : newer? request.threshold n.modified with
    | some time => exact walk_cons_of_newer hnewer _ _
    | none =>
      rw [walk_cons_of_old hnewer, List.append_assoc]
      refine ih (next ++ opened view request n) _ ?_
      intro stats
      rw [List.append_assoc, ← List.flatMap_cons]
      exact h stats

theorem listing_eq_of_mem {root : Path} {p n : ScanNode} (h : n ∈ listing view root p) :
    ∃ entries, view.readDir (p.address root) = .ok entries ∧
      listing view root p = entries.map p.child := by
  unfold listing at h ⊢
  split at h
  · rename_i hkind
    split at h
    · rename_i entries hlist
      exact ⟨entries, hlist, by rw [if_pos hkind]⟩
    · cases h
  · cases h

theorem exists_entry_of_mem_listing {root : Path} {p n : ScanNode}
    (h : n ∈ listing view root p) :
    ∃ entries, view.readDir (p.address root) = .ok entries ∧ ∃ e ∈ entries, n = p.child e := by
  obtain ⟨entries, hlist, hlisting⟩ := listing_eq_of_mem h
  rw [hlisting] at h
  obtain ⟨e, he, rfl⟩ := List.mem_map.mp h
  exact ⟨entries, hlist, e, he, rfl⟩

theorem depth_of_mem_listing {root : Path} {n m : ScanNode} (h : m ∈ listing view root n) :
    m.depth = n.depth + 1 := by
  obtain ⟨entries, -, e, -, rfl⟩ := exists_entry_of_mem_listing h
  rfl

theorem walk_eq_search (depth : Nat) (level : List ScanNode) (stats : ScanStats)
    (hlevel : ∀ n ∈ level, n.depth + depth = request.maxDepth) :
    walk view request level stats =
      search view request (levelsFrom view request.root depth level) stats := by
  induction depth generalizing level stats with
  | zero =>
    have hopened : level.flatMap (opened view request) = [] := by
      apply List.flatMap_eq_nil_iff.mpr
      intro n hn
      have hdepth := hlevel n hn
      rw [opened, if_neg]
      simp [ScanNode.isOpened]
      omega
    have hwalk : walk view request (level ++ []) stats = search view request (level ++ []) stats :=
      walk_level level [] stats fun stats => by rw [hopened, List.append_nil, walk, search]
    rwa [List.append_nil] at hwalk
  | succ depth ih =>
    have hopened : level.flatMap (opened view request) =
        level.flatMap (listing view request.root) := by
      apply List.flatMap_congr
      intro n hn
      have hdepth := hlevel n hn
      unfold opened listing
      by_cases hkind : n.kind = .directory
      · rw [if_pos]
        simp [ScanNode.isOpened, hkind]
        omega
      · simp [hkind]
    have hwalk := walk_level level [] stats fun stats => by
      rw [hopened, List.nil_append]
      refine ih (level.flatMap (listing view request.root)) stats ?_
      intro m hm
      obtain ⟨n, hn, hm⟩ := List.mem_flatMap.mp hm
      have hdepth := hlevel n hn
      rw [depth_of_mem_listing hm]
      omega
    rwa [List.append_nil] at hwalk

theorem full_eq_search (rootModified : Option Instant) (stats : ScanStats) :
    full view request rootModified stats =
      search view request (levelOrder view request rootModified) stats := by
  refine walk_eq_search request.maxDepth [.ofRoot rootModified] stats ?_
  intro n hn
  obtain rfl := List.mem_singleton.mp hn
  exact Nat.zero_add request.maxDepth

/-- What is listed in a node above the greatest depth comes in a later level. -/
theorem mem_levelsFrom_of_mem_listing {root : Path} {maxDepth : Nat} {p n : ScanNode} (depth : Nat)
    (level : List ScanNode) (hlevel : ∀ m ∈ level, m.depth + depth = maxDepth)
    (hp : p ∈ levelsFrom view root depth level) (hdepth : p.depth < maxDepth)
    (hn : n ∈ listing view root p) : n ∈ levelsFrom view root depth level := by
  induction depth generalizing level with
  | zero =>
    have hmax := hlevel p hp
    omega
  | succ depth ih =>
    rw [levelsFrom] at hp ⊢
    apply List.mem_append_right
    rcases List.mem_append.mp hp with hp | hp
    · have hnext : n ∈ level.flatMap (listing view root) := List.mem_flatMap.mpr ⟨p, hp, hn⟩
      cases depth with
      | zero => exact hnext
      | succ depth => exact List.mem_append_left _ hnext
    · refine ih _ (fun m hm => ?_) hp
      obtain ⟨q, hq, hm⟩ := List.mem_flatMap.mp hm
      have hmax := hlevel q hq
      rw [depth_of_mem_listing hm]
      omega

theorem mem_levelOrder_of_mem_listing {rootModified : Option Instant} {p n : ScanNode}
    (hp : p ∈ levelOrder view request rootModified) (hdepth : p.depth < request.maxDepth)
    (hn : n ∈ listing view request.root p) : n ∈ levelOrder view request rootModified := by
  refine mem_levelsFrom_of_mem_listing _ _ (fun m hm => ?_) hp hdepth hn
  obtain rfl := List.mem_singleton.mp hm
  exact Nat.zero_add request.maxDepth

theorem ofRoot_mem_levelOrder (rootModified : Option Instant) :
    .ofRoot rootModified ∈ levelOrder view request rootModified := by
  unfold levelOrder
  cases request.maxDepth <;> simp [levelsFrom]

/-- What holds of the first level and goes from a node to what is listed in it holds of all levels. -/
theorem forall_mem_levelsFrom {P : ScanNode → Prop} {root : Path} (depth : Nat)
    (level : List ScanNode) (hlevel : ∀ n ∈ level, P n)
    (hlisting : ∀ p, P p → ∀ n ∈ listing view root p, P n) :
    ∀ n ∈ levelsFrom view root depth level, P n := by
  induction depth generalizing level with
  | zero => exact hlevel
  | succ depth ih =>
    rw [levelsFrom, List.forall_mem_append]
    refine ⟨hlevel, ih _ ?_⟩
    intro n hn
    obtain ⟨p, hp, hn⟩ := List.mem_flatMap.mp hn
    exact hlisting p (hlevel p hp) n hn

theorem depth_le_of_mem_levelsFrom {root : Path} {n : ScanNode} {maxDepth : Nat} (depth : Nat)
    (level : List ScanNode) (hlevel : ∀ m ∈ level, m.depth + depth = maxDepth)
    (hn : n ∈ levelsFrom view root depth level) : n.depth ≤ maxDepth := by
  induction depth generalizing level with
  | zero => exact (hlevel n hn).le
  | succ depth ih =>
    rw [levelsFrom] at hn
    rcases List.mem_append.mp hn with hn | hn
    · have hmax := hlevel n hn
      omega
    · refine ih _ (fun m hm => ?_) hn
      obtain ⟨p, hp, hm⟩ := List.mem_flatMap.mp hm
      have hmax := hlevel p hp
      rw [depth_of_mem_listing hm]
      omega

theorem depth_le_of_mem_levelOrder {rootModified : Option Instant} {n : ScanNode}
    (hn : n ∈ levelOrder view request rootModified) : n.depth ≤ request.maxDepth := by
  refine depth_le_of_mem_levelsFrom _ _ (fun m hm => ?_) hn
  obtain rfl := List.mem_singleton.mp hm
  exact Nat.zero_add request.maxDepth

/-! ## What a search finds -/

theorem foldl_pass (nodes : List ScanNode) (stats : ScanStats) :
    nodes.foldl (pass view request) stats =
      ⟨stats.nodesVisited + nodes.length, stats.dirsListed + nodes.countP (isListed view request),
        stats.listingFailures + nodes.countP (isUnlistable view request), stats.foundIn⟩ := by
  induction nodes generalizing stats with
  | nil => rfl
  | cons n nodes ih =>
    rw [List.foldl_cons, ih, List.length_cons, List.countP_cons, List.countP_cons]
    by_cases hlisted : isListed view request n = true
    · have hnot : isUnlistable view request n = false := by
        obtain ⟨hopened, hok⟩ := Bool.and_eq_true_iff.mp hlisted
        simp [isUnlistable, hok]
      simp [pass, hlisted, hnot, ScanStats.visited, ScanStats.listed]
      omega
    · by_cases hfailed : isUnlistable view request n = true
      · simp [pass, hlisted, hfailed, ScanStats.visited, ScanStats.failed]
        omega
      · simp [pass, hlisted, hfailed, ScanStats.visited]
        omega

theorem search_append_of_old {before : List ScanNode}
    (h : ∀ n ∈ before, ¬ n.IsNewer request.threshold) (after : List ScanNode) (stats : ScanStats) :
    search view request (before ++ after) stats =
      search view request after (before.foldl (pass view request) stats) := by
  induction before generalizing stats with
  | nil => rfl
  | cons n before ih =>
    rw [List.cons_append, search, ScanNode.newer?_eq_none.mpr (h n List.mem_cons_self)]
    exact ih (fun m hm => h m (List.mem_cons_of_mem n hm)) _

theorem exists_first_newer {threshold : Instant} {nodes : List ScanNode}
    (h : ∃ n ∈ nodes, n.IsNewer threshold) :
    ∃ before n after, nodes = before ++ n :: after ∧ (∀ b ∈ before, ¬ b.IsNewer threshold) ∧
      n.IsNewer threshold := by
  induction nodes with
  | nil =>
    obtain ⟨n, hn, -⟩ := h
    cases hn
  | cons m nodes ih =>
    by_cases hm : m.IsNewer threshold
    · exact ⟨[], m, nodes, rfl, nofun, hm⟩
    · have hrest : ∃ n ∈ nodes, n.IsNewer threshold := by
        obtain ⟨n, hn, hnewer⟩ := h
        rcases List.mem_cons.mp hn with rfl | hn
        · exact absurd hnewer hm
        · exact ⟨n, hn, hnewer⟩
      obtain ⟨before, n, after, rfl, hbefore, hn⟩ := ih hrest
      refine ⟨m :: before, n, after, rfl, fun b hb => ?_, hn⟩
      rcases List.mem_cons.mp hb with rfl | hb
      · exact hm
      · exact hbefore b hb

theorem search_of_first {before after : List ScanNode} {n : ScanNode} {time : Instant}
    (hbefore : ∀ b ∈ before, ¬ b.IsNewer request.threshold)
    (hn : newer? request.threshold n.modified = some time) (stats : ScanStats) :
    search view request (before ++ n :: after) stats =
      (.changed n.reportPath time, (before.foldl (pass view request) stats).visited) := by
  rw [search_append_of_old hbefore, search, hn]

theorem search_of_old {nodes : List ScanNode} (h : ∀ n ∈ nodes, ¬ n.IsNewer request.threshold)
    (stats : ScanStats) :
    search view request nodes stats =
      (.unchanged, nodes.foldl (pass view request) stats) := by
  have hsearch : search view request (nodes ++ []) stats = _ := search_append_of_old h [] stats
  rwa [List.append_nil, search] at hsearch

theorem hasChanges_search {nodes : List ScanNode} {stats : ScanStats} :
    (search view request nodes stats).1.hasChanges = true ↔
      ∃ n ∈ nodes, n.IsNewer request.threshold := by
  constructor
  · intro h
    by_contra hnone
    rw [search_of_old fun n hn hnewer => hnone ⟨n, hn, hnewer⟩] at h
    cases h
  · intro h
    obtain ⟨before, n, after, rfl, hbefore, time, hn⟩ := exists_first_newer h
    rw [search_of_first hbefore (newer?_eq_some.mpr hn)]
    rfl

/-- Whether the full scan finds something does not depend on what was counted before. -/
theorem hasChanges_full {rootModified : Option Instant} {stats : ScanStats} :
    (full view request rootModified stats).1.hasChanges = true ↔
      ∃ n ∈ levelOrder view request rootModified, n.IsNewer request.threshold := by
  rw [full_eq_search, hasChanges_search]

end Scan

end IncrementalBackup
