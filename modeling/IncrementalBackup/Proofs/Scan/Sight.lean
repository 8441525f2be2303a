import IncrementalBackup.Proofs.Scan.HotPath
import IncrementalBackup.Proofs.Storage.Agreement

/-!
# Out of sight

A scan sees the root and what lies at most as many components below it as it may go down. Trees that
agree there are scanned alike, whatever else they hold: the full scan goes to no other place, and the
hot path neither, since a hint that leads out or too deep is ignored.
-/

namespace IncrementalBackup.Scan

/-- The places that a scan may see. -/
structure InSight (request : ScanRequest) (l : Location) : Prop where
  below : request.root.components <+: l
  depth : l.length ≤ request.root.components.length + request.maxDepth

/-- A hint that is ignored, since it is empty, absolute, climbs out or leads too deep; or one whose
components can be counted with 32 bits. -/
def IsCountable (request : ScanRequest) (hint : Path) : Prop :=
  hint.bytes = [] ∨ hint.isAbsolute = true ∨ .parent ∈ hint.components ∨
    (∃ depth, hint.components.depth? = some depth ∧ request.maxDepth < depth) ∨
    hint.components.length < UInt32.size

section

variable {view view' : View} {request : ScanRequest}

/-! ## Views that list alike -/

/-- Views that list alike what the levels of one of them hold have the same levels. -/
theorem levelsFrom_congr {P : ScanNode → Prop} {root : Path} {maxDepth : Nat} (depth : Nat)
    (level : List ScanNode) (hlevel : ∀ n ∈ level, P n ∧ n.depth + depth = maxDepth)
    (hpreserved : ∀ p, P p → ∀ n ∈ listing view root p, P n)
    (hsame : ∀ n, P n → n.depth < maxDepth → listing view root n = listing view' root n) :
    levelsFrom view root depth level = levelsFrom view' root depth level := by
  induction depth generalizing level with
  | zero => rfl
  | succ depth ih =>
    have hnext : level.flatMap (listing view root) = level.flatMap (listing view' root) := by
      apply List.flatMap_congr
      intro n hn
      obtain ⟨hp, hdepth⟩ := hlevel n hn
      exact hsame n hp (by omega)
    rw [levelsFrom, levelsFrom, ← hnext]
    refine congrArg _ (ih _ fun m hm => ?_)
    obtain ⟨p, hp, hm⟩ := List.mem_flatMap.mp hm
    obtain ⟨hP, hdepth⟩ := hlevel p hp
    rw [depth_of_mem_listing hm]
    exact ⟨hpreserved p hP m hm, by omega⟩

theorem search_congr {nodes : List ScanNode}
    (h : ∀ n ∈ nodes, n.depth < request.maxDepth →
      view.readDir (n.address request.root) = view'.readDir (n.address request.root))
    (stats : ScanStats) : search view request nodes stats = search view' request nodes stats := by
  induction nodes generalizing stats with
  | nil => rfl
  | cons n nodes ih =>
    have hpass : pass view request stats n = pass view' request stats n := by
      unfold pass isListed isUnlistable ScanNode.isOpened
      by_cases hdepth : n.depth < request.maxDepth
      · rw [h n List.mem_cons_self hdepth]
      · simp [hdepth]
    rw [search, search, hpass, ih fun m hm => h m (List.mem_cons_of_mem n hm)]

/-- Views that list alike what a full scan of one of them goes to are scanned alike. -/
theorem full_congr {P : ScanNode → Prop} {rootModified : Option Instant}
    (hroot : P (.ofRoot rootModified))
    (hpreserved : ∀ p, P p → ∀ n ∈ listing view request.root p, P n)
    (hread : ∀ n, P n → n.depth < request.maxDepth →
      view.readDir (n.address request.root) = view'.readDir (n.address request.root))
    (stats : ScanStats) :
    full view request rootModified stats = full view' request rootModified stats := by
  have hfirst : ∀ n ∈ [ScanNode.ofRoot rootModified],
      P n ∧ n.depth + request.maxDepth = request.maxDepth := by
    intro n hn
    obtain rfl := List.mem_singleton.mp hn
    exact ⟨hroot, Nat.zero_add request.maxDepth⟩
  have horder : levelOrder view request rootModified = levelOrder view' request rootModified := by
    refine levelsFrom_congr _ _ hfirst hpreserved fun n hn hdepth => ?_
    rw [listing, listing, hread n hn hdepth]
  rw [full_eq_search, full_eq_search, ← horder]
  apply search_congr
  intro n hn
  exact hread n (forall_mem_levelsFrom _ _ (fun n hn => (hfirst n hn).1) hpreserved n hn)

/-- The hot path asks for what the hint leads to and, if this is a directory, for its entries. -/
theorem hotPath_congr
    (htarget : ∀ hint depth, usableHint? request = some (hint, depth) →
      hintTarget view request hint depth = hintTarget view' request hint depth)
    (hread : ∀ hint depth target found, usableHint? request = some (hint, depth) →
      hintTarget view request hint depth = (target, .ok found) → found.isDirectory = true →
      depth < request.maxDepth → view.readDir target = view'.readDir target)
    (stats : ScanStats) : hotPath view request stats = hotPath view' request stats := by
  unfold hotPath
  cases husable : usableHint? request with
  | none => rfl
  | some usable =>
    obtain ⟨hint, depth⟩ := usable
    have hle := (usableHint?_eq_some_iff.mp husable).2.2.2
    dsimp only
    rw [← htarget hint depth husable]
    rcases hfound : hintTarget view request hint depth with ⟨target, e | found⟩
    · rfl
    · by_cases hdir : found.isDirectory = true
      · by_cases hmax : depth = request.maxDepth
        · simp only [hmax, if_true]
        · simp only [hread hint depth target found husable hfound hdir (by omega)]
      · simp [hdir]

end

/-! ## Trees that agree in sight -/

variable {t t' : MemoryTree} {request : ScanRequest}

theorem inSight_append {below : Location} (h : below.length ≤ request.maxDepth) :
    InSight request (request.root.components ++ below) :=
  ⟨List.prefix_append _ _, by rw [List.length_append]; omega⟩

theorem readDir_congr_of_inSight (hagree : ∀ l, InSight request l → t.AgreeAt t' l) {p : Path}
    {names : List (List UInt8)} (hp : p.components = request.root.components ++ names.map .name)
    (hdepth : names.length < request.maxDepth) : t.view.readDir p = t'.view.readDir p := by
  have hplace : ∀ below : Location, below.length ≤ 1 → t.AgreeAt t' (p.components ++ below) := by
    intro below hlength
    rw [hp, List.append_assoc]
    apply hagree
    apply inSight_append
    rw [List.length_append, List.length_map]
    omega
  have hself := hplace [] (Nat.zero_le 1)
  rw [List.append_nil] at hself
  exact hself.readDir_eq fun c => hplace [c] (Nat.le_refl 1)

theorem full_congr_of_inSight (hreach : t.Reachable)
    (hagree : ∀ l, InSight request l → t.AgreeAt t' l) {rootNode : MemoryNode}
    (hdir : rootNode.kind = .directory) (stats : ScanStats) :
    full t.view request (some rootNode.modified) stats =
      full t'.view request (some rootNode.modified) stats := by
  refine full_congr (P := fun n => ∃ names node, StandsFor n names node)
    ⟨[], rootNode, standsFor_ofRoot hdir⟩ (fun _ hp => exists_standsFor_of_mem_listing hreach hp)
    ?_ stats
  rintro n ⟨names, node, hstands⟩ hdepth
  refine readDir_congr_of_inSight hagree (hstands.components_address request.root) ?_
  rwa [List.length_map, ← hstands.depth]

theorem metadata_hintTarget_congr (hagree : ∀ l, InSight request l → t.AgreeAt t' l) {hint : Path}
    {depth : Nat} {names : List (List UInt8)} (hdepth : names.length ≤ request.maxDepth)
    (hplace : (hintTarget t.view request hint depth).1.components =
      request.root.components ++ names.map .name) :
    hintTarget t.view request hint depth = hintTarget t'.view request hint depth := by
  have htarget : (hintTarget t.view request hint depth).1 =
      (hintTarget t'.view request hint depth).1 := by
    unfold hintTarget
    split <;> rfl
  have hsame : t.AgreeAt t' (hintTarget t.view request hint depth).1.components := by
    rw [hplace]
    apply hagree
    apply inSight_append
    rwa [List.length_map]
  apply Prod.ext htarget
  rw [hintTarget_snd, hintTarget_snd, ← htarget, hsame.metadata_eq]

/-- The names of a hint that is followed have been counted. -/
theorem length_lt_of_usableHint? {hint : Path} {depth : Nat} (h : IsCountable request hint)
    (husable : usableHint? request = some (hint, depth)) :
    hint.components.length < UInt32.size := by
  obtain ⟨-, -, hdepth, hle⟩ := usableHint?_eq_some_iff.mp husable
  rcases h with hempty | habsolute | hparent | ⟨other, hother, hlt⟩ | hlength
  · rw [Path.components_eq_nil_iff.mpr hempty]
    decide
  · exact absurd habsolute (Path.not_isAbsolute_of_depth? hdepth)
  · obtain ⟨count, hcount, -⟩ := Option.map_eq_some_iff.mp hdepth
    obtain ⟨names, -, hfilter⟩ := Location.nameCount?_eq_some hcount
    have hmem : .parent ∈ hint.components.filter (· ≠ .current) := by simp [hparent]
    rw [hfilter] at hmem
    simp at hmem
  · obtain rfl := Option.some.inj (hdepth.symm.trans hother)
    omega
  · exact hlength

theorem hotPath_congr_of_inSight (hroot : request.root.bytes ≠ [])
    (hhint : ∀ hint, request.hint = some hint → IsCountable request hint)
    (hagree : ∀ l, InSight request l → t.AgreeAt t' l) (stats : ScanStats) :
    hotPath t.view request stats = hotPath t'.view request stats := by
  have hplace : ∀ hint depth, usableHint? request = some (hint, depth) →
      ∃ names : List (List UInt8), names.length = depth ∧
        (hintTarget t.view request hint depth).1.components =
          request.root.components ++ names.map .name := by
    intro hint depth husable
    obtain ⟨hgiven, -, hdepth, -⟩ := usableHint?_eq_some_iff.mp husable
    exact components_hintTarget t.view hroot hdepth
      (length_lt_of_usableHint? (hhint hint hgiven) husable)
  refine hotPath_congr (fun hint depth husable => ?_)
    (fun hint depth target found husable htarget _ hdepth => ?_) stats
  · obtain ⟨names, hnames, hcomponents⟩ := hplace hint depth husable
    have hle := (usableHint?_eq_some_iff.mp husable).2.2.2
    exact metadata_hintTarget_congr hagree (by omega) hcomponents
  · obtain ⟨names, hnames, hcomponents⟩ := hplace hint depth husable
    rw [htarget] at hcomponents
    exact readDir_congr_of_inSight hagree hcomponents (by omega)

/-- Trees that agree on everything in sight are scanned with the same result and the same counters. -/
theorem withStats_eq_of_agree_in_sight (t t' : MemoryTree) (request : ScanRequest)
    (hreach : t.Reachable) (hroot : request.root.bytes ≠ [])
    (hhint : ∀ hint, request.hint = some hint → IsCountable request hint)
    (hagree : ∀ l, InSight request l → t.AgreeAt t' l) :
    withStats t.view request = withStats t'.view request := by
  have hself := hagree request.root.components ⟨List.prefix_rfl, Nat.le_add_right _ _⟩
  have hmeta : t.view.metadataFollow request.root = t'.view.metadataFollow request.root :=
    hself.metadata_eq
  rw [withStats, withStats, ← hmeta, hotPath_congr_of_inSight hroot hhint hagree]
  cases hfound : t.view.metadataFollow request.root with
  | error e => rfl
  | ok root =>
    obtain ⟨rootNode, -, -, rfl⟩ := MemoryTree.metadata_eq_ok_iff.mp hfound
    by_cases hdir : rootNode.kind = .directory
    · dsimp only
      simp only [full_congr_of_inSight hreach hagree hdir]
    · simp [Metadata.isDirectory, hdir]

def oldTree : MemoryTree :=
  (((MemoryTree.empty ⟨0⟩).addDirectory (.ofString "/r") ⟨0⟩).addDirectory (.ofString "/r/d")
    ⟨0⟩).addDirectory (.ofString "/r/d/e") ⟨0⟩

/-- The old tree with a new file three names below `/r`, and a new directory beside `/r` that is
denied. -/
def newOutOfSight : MemoryTree :=
  ((oldTree.addFile (.ofString "/r/d/e/x") [] ⟨9⟩).addDirectory (.ofString "/s") ⟨9⟩).deny
    (.ofString "/s")

theorem withStats_newOutOfSight :
    oldTree.Reachable ∧
      (∀ l, InSight ⟨.ofString "/r", ⟨5⟩, 2, some (.ofString "d")⟩ l →
        oldTree.AgreeAt newOutOfSight l) ∧
      oldTree.node? (Path.ofString "/r/d/e/x").components ≠
        newOutOfSight.node? (Path.ofString "/r/d/e/x").components ∧
      withStats oldTree.view ⟨.ofString "/r", ⟨5⟩, 2, some (.ofString "d")⟩ =
        withStats newOutOfSight.view ⟨.ofString "/r", ⟨5⟩, 2, some (.ofString "d")⟩ := by
  have hreach : oldTree.Reachable :=
    (((MemoryTree.Reachable.empty ⟨0⟩).step (.addDirectory _ _)).step (.addDirectory _ _)).step
      (.addDirectory _ _)
  have hagree : ∀ l, InSight ⟨.ofString "/r", ⟨5⟩, 2, some (.ofString "d")⟩ l →
      oldTree.AgreeAt newOutOfSight l := by
    intro l hl
    have hdeep : l ≠ (Path.ofString "/r/d/e/x").components := by
      rintro rfl
      exact absurd hl.depth (by decide)
    have hbeside : l ≠ (Path.ofString "/s").components := by
      rintro rfl
      exact absurd hl.below (by decide)
    exact ((MemoryTree.agreeAt_put hdeep (by decide)).trans
      (MemoryTree.agreeAt_put hbeside (by decide))).trans (MemoryTree.agreeAt_deny hbeside)
  refine ⟨hreach, hagree, by decide, ?_⟩
  refine withStats_eq_of_agree_in_sight oldTree newOutOfSight _ hreach (by decide) ?_ hagree
  intro hint hhint
  obtain rfl := Option.some.inj hhint
  exact .inr (.inr (.inr (.inr (by decide))))

end IncrementalBackup.Scan
