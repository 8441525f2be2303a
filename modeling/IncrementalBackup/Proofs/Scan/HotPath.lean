import IncrementalBackup.Proofs.Scan.Scope

/-!
# The hot path leads into the level order

On any view a hot path can only add changes to what the full scan finds. On an ordinary tree it adds
none: a usable hint names a node that the listings from the root lead to, so what is checked there is
a part of the level order.
-/

namespace IncrementalBackup

/-! ## What the hot path has found -/

namespace Location

theorem nameCount?_eq_some {l : Location} {count : Nat} (h : l.nameCount? = some count) :
    ∃ names : List (List UInt8), names.length = count ∧
      l.filter (· ≠ .current) = names.map .name := by
  induction l generalizing count with
  | nil =>
    obtain rfl := Option.some.inj h
    exact ⟨[], rfl, rfl⟩
  | cons c l ih =>
    cases c with
    | root => cases h
    | parent => cases h
    | current =>
      obtain ⟨names, hlength, hnames⟩ := ih h
      exact ⟨names, hlength, by simpa using hnames⟩
    | name bytes =>
      obtain ⟨rest, hrest, rfl⟩ := Option.map_eq_some_iff.mp h
      obtain ⟨names, hlength, hnames⟩ := ih hrest
      refine ⟨bytes :: names, by simp [hlength], ?_⟩
      simpa using hnames

/-- A count of 32 bits is exact for a place with fewer than `2 ^ 32` components. -/
theorem depth?_eq_some {l : Location} {depth : Nat} (h : l.depth? = some depth)
    (hlength : l.length < UInt32.size) :
    ∃ names : List (List UInt8), names.length = depth ∧
      l.filter (· ≠ .current) = names.map .name := by
  obtain ⟨count, hcount, hmin⟩ := Option.map_eq_some_iff.mp h
  obtain ⟨names, hnames, hfilter⟩ := nameCount?_eq_some hcount
  have hle : names.length ≤ l.length := by
    have hfilterLength := List.length_filter_le (fun c => decide (c ≠ Component.current)) l
    rwa [hfilter, List.length_map] at hfilterLength
  exact ⟨names, by omega, hfilter⟩

end Location

theorem Path.not_isAbsolute_of_depth? {p : Path} {depth : Nat}
    (h : p.components.depth? = some depth) : ¬ p.isAbsolute = true := by
  intro habsolute
  obtain ⟨rest, hrest⟩ := Path.components_of_isAbsolute habsolute
  rw [hrest] at h
  cases h

namespace Scan

variable {view : View} {request : ScanRequest}

/-- Whether a time is known and later than the threshold. -/
def isNewer (threshold : Instant) (modified : Option Instant) : Bool :=
  (newer? threshold modified).isSome

theorem firstNewer_fst (threshold : Instant) (entries : List Entry) (stats : ScanStats) :
    (firstNewer threshold entries stats).1 =
      (entries.find? fun e => isNewer threshold e.modified).bind
        fun e => newer? threshold e.modified := by
  induction entries generalizing stats with
  | nil => rfl
  | cons e entries ih =>
    rw [firstNewer, List.find?_cons, isNewer]
    cases hnewer : newer? threshold e.modified with
    | some time => simp [hnewer]
    | none => simpa using ih stats.visited

theorem dirsListed_firstNewer (threshold : Instant) (entries : List Entry) (stats : ScanStats) :
    (firstNewer threshold entries stats).2.dirsListed = stats.dirsListed := by
  induction entries generalizing stats with
  | nil => rfl
  | cons e entries ih =>
    rw [firstNewer]
    cases newer? threshold e.modified with
    | some time => rfl
    | none => exact ih stats.visited

theorem firstNewer_eq_some {threshold time : Instant} {entries : List Entry}
    {stats stats' : ScanStats} (h : firstNewer threshold entries stats = (some time, stats')) :
    stats'.dirsListed = stats.dirsListed ∧
      ∃ e ∈ entries, newer? threshold e.modified = some time := by
  have hfst := firstNewer_fst threshold entries stats
  have hlisted := dirsListed_firstNewer threshold entries stats
  rw [h] at hfst hlisted
  obtain ⟨e, he, hnewer⟩ := Option.bind_eq_some_iff.mp hfst.symm
  exact ⟨hlisted, e, List.mem_of_find?_eq_some he, hnewer⟩

theorem usableHint?_eq_some_iff {hint : Path} {depth : Nat} :
    usableHint? request = some (hint, depth) ↔ request.hint = some hint ∧ hint.bytes ≠ [] ∧
      hint.components.depth? = some depth ∧ depth ≤ request.maxDepth := by
  constructor
  · intro h
    unfold usableHint? at h
    split at h
    · cases h
    · rename_i other hother
      split at h
      · cases h
      · rename_i hempty
        split at h
        · cases h
        · rename_i count hcount
          split at h
          · rename_i hle
            cases h
            exact ⟨hother, by simpa [Path.isEmpty] using hempty, hcount, hle⟩
          · cases h
  · rintro ⟨hgiven, hne, hdepth, hle⟩
    rw [usableHint?, hgiven]
    simp [Path.isEmpty, hne, hdepth, hle]

/-- The hot path finds a change only in a directory that the hint leads to: at the directory itself,
or at an entry that is not too deep. It is reported at the hint. -/
theorem hotPath_eq_some {result : ScanResult} {stats stats' : ScanStats}
    (h : hotPath view request stats = (some result, stats')) :
    ∃ hint depth target found time, result = .changed hint time ∧
      stats'.dirsListed ≤ stats.dirsListed + 1 ∧
      usableHint? request = some (hint, depth) ∧
      hintTarget view request hint depth = (target, .ok found) ∧
      (newer? request.threshold found.modified = some time ∨
        (depth < request.maxDepth ∧ ∃ entries, view.readDir target = .ok entries ∧
          ∃ e ∈ entries, newer? request.threshold e.modified = some time)) := by
  unfold hotPath at h
  split at h
  · cases h
  · rename_i hint depth hhint
    have hle := (usableHint?_eq_some_iff.mp hhint).2.2.2
    split at h
    · cases h
    · rename_i target found htarget
      split at h
      · cases h
      · split at h
        · rename_i time hnewer
          cases h
          exact ⟨hint, depth, target, found, time, rfl, Nat.le_succ _, hhint, htarget, .inl hnewer⟩
        · split at h
          · cases h
          · rename_i hdepth
            split at h
            · cases h
            · rename_i entries hentries
              split at h
              · rename_i time after hfirst
                cases h
                obtain ⟨hlisted, e, he, hnewer⟩ := firstNewer_eq_some hfirst
                exact ⟨hint, depth, target, found, time, rfl, hlisted.le, hhint, htarget,
                  .inr ⟨by omega, entries, hentries, e, he, hnewer⟩⟩
              · cases h

theorem hotPath_of_no_hint (hhint : request.hint = none) (stats : ScanStats) :
    hotPath view request stats = (none, stats) := by
  rw [hotPath, usableHint?, hhint]

theorem hasChanges_scan_iff :
    (scan view request).hasChanges = true ↔
      ∃ root, view.metadataFollow request.root = .ok root ∧ root.isDirectory = true ∧
        ((∃ result, (hotPath view request .zero).1 = some result) ∨
          ∃ n ∈ levelOrder view request root.modified, n.IsNewer request.threshold) := by
  rw [scan, withStats]
  cases hroot : view.metadataFollow request.root with
  | error e => simp [ScanResult.hasChanges]
  | ok root =>
    by_cases hdir : root.isDirectory = true
    · simp only [hdir, Bool.not_true, Bool.false_eq_true, if_false]
      rcases hhot : hotPath view request .zero with ⟨_ | result, stats⟩
      · have hfull : (full view request root.modified stats).1.hasChanges = true ↔
            ∃ n ∈ levelOrder view request root.modified, n.IsNewer request.threshold :=
          hasChanges_full
        rcases hscan : full view request root.modified stats with ⟨_ | ⟨path, time⟩, stats'⟩
        · simpa [hdir, hscan] using hfull
        · simpa [hdir, hscan] using hfull
      · obtain ⟨hint, depth, target, found, time, rfl, -⟩ := hotPath_eq_some hhot
        simp [hdir, ScanResult.hasChanges]
    · simp [hdir, ScanResult.hasChanges]

theorem hasChanges_scan_of_no_hint
    (h : (scan view { request with hint := none }).hasChanges = true) :
    (scan view request).hasChanges = true := by
  obtain ⟨root, hroot, hdir, hfound⟩ := hasChanges_scan_iff.mp h
  refine hasChanges_scan_iff.mpr ⟨root, hroot, hdir, .inr ?_⟩
  rcases hfound with ⟨result, hresult⟩ | hfound
  · rw [hotPath_of_no_hint rfl] at hresult
    cases hresult
  · exact hfound

end Scan

/-! ## Ordinary trees -/

namespace MemoryTree

/-- A tree in which everything may be looked at, names are texts, and only directories hold nodes. -/
structure IsOrdinary (t : MemoryTree) : Prop where
  allowed : ∀ l, t.IsAllowed l
  text : ∀ {l n}, t.node? l = some n → ∀ name, .name name ∈ l → Utf8.isValid name = true
  directories : ∀ {l n}, t.node? l = some n → ∀ a ∈ l.ancestors,
    ∃ m, t.node? a = some m ∧ m.kind = .directory

theorem isOrdinary_iff {t : MemoryTree} :
    t.IsOrdinary ↔ t.denied.entries = [] ∧ ∀ e ∈ t.nodes.entries,
      (∀ c ∈ e.1, Utf8.isValid c.label = true) ∧
        ∀ a ∈ e.1.ancestors, (t.node? a).map (·.kind) = some .directory := by
  have hnode : ∀ l n, t.node? l = some n ↔ (l, n) ∈ t.nodes.entries := fun l n =>
    OrderedMap.get?_eq_some_iff
  constructor
  · intro h
    refine ⟨List.eq_nil_iff_forall_not_mem.mpr fun e he => ?_, fun e he => ⟨fun c hc => ?_, ?_⟩⟩
    · exact h.allowed e.1 (OrderedMap.contains_iff.mpr ⟨e.2, OrderedMap.get?_eq_some_iff.mpr he⟩)
    · cases c with
      | name bytes => exact h.text ((hnode _ _).mpr he) bytes hc
      | root => rfl
      | current => rfl
      | parent => rfl
    · intro a ha
      obtain ⟨m, hm, hdir⟩ := h.directories ((hnode _ _).mpr he) a ha
      rw [hm, Option.map_some, hdir]
  · rintro ⟨hdenied, hentries⟩
    refine ⟨fun l hl => ?_, fun hn name hname => ?_, fun hn a ha => ?_⟩
    · obtain ⟨v, hv⟩ := OrderedMap.contains_iff.mp hl
      rw [OrderedMap.get?_eq_some_iff, hdenied] at hv
      cases hv
    · exact (hentries _ ((hnode _ _).mp hn)).1 _ hname
    · obtain ⟨m, hm, hdir⟩ := Option.map_eq_some_iff.mp ((hentries _ ((hnode _ _).mp hn)).2 a ha)
      exact ⟨m, hm, hdir⟩

instance (t : MemoryTree) : Decidable t.IsOrdinary := decidable_of_iff _ isOrdinary_iff.symm

end MemoryTree

namespace Scan

variable {t : MemoryTree} {request : ScanRequest}

/-- On an ordinary tree every node below a root lies open. -/
theorem liesOpen_of_isOrdinary (hordinary : t.IsOrdinary) {root : Path} (hroot : root.bytes ≠ [])
    {names : List (List UInt8)} {node : MemoryNode}
    (hn : t.node? (root.components ++ names.map .name) = some node) :
    LiesOpen t root.components names where
  directories above hle _ hproper := by
    refine hordinary.directories hn _ (Location.mem_ancestors_iff.mpr ⟨?_, ?_, ?_⟩)
    · intro hnil
      exact hroot (Path.components_eq_nil_iff.mp (List.append_eq_nil_iff.mp hnil).1)
    · exact (List.prefix_append_right_inj _).mpr (hle.map _)
    · intro heq
      have hlength := congrArg List.length (List.append_cancel_left heq)
      rw [List.length_map, List.length_map] at hlength
      exact hproper (hle.eq_of_length hlength)
  texts name hname := by
    apply hordinary.text hn name
    exact List.mem_append_right _ (List.mem_map_of_mem (List.dropLast_subset _ hname))

/-- What a hint leads to lies as many names below the root as its depth says. -/
theorem components_hintTarget (view : View) {hint : Path} {depth : Nat}
    (hroot : request.root.bytes ≠ []) (hdepth : hint.components.depth? = some depth)
    (hlength : hint.components.length < UInt32.size) :
    ∃ names : List (List UInt8), names.length = depth ∧
      (hintTarget view request hint depth).1.components =
        request.root.components ++ names.map .name := by
  obtain ⟨names, hnames, hfilter⟩ := Location.depth?_eq_some hdepth hlength
  refine ⟨names, hnames, ?_⟩
  rw [hintTarget]
  split
  · rename_i hzero
    obtain rfl : names = [] := List.length_eq_zero_iff.mp (hnames.trans hzero)
    exact (List.append_nil _).symm
  · rw [← hfilter]
    exact Path.components_join hroot (Path.not_isAbsolute_of_depth? hdepth)

theorem hintTarget_snd (t : MemoryTree) (request : ScanRequest) (hint : Path) (depth : Nat) :
    (hintTarget t.view request hint depth).2 =
      t.metadata (hintTarget t.view request hint depth).1 := by
  unfold hintTarget
  split <;> rfl

theorem exists_newer_of_hotPath (hreach : t.Reachable) (hordinary : t.IsOrdinary)
    (hroot : request.root.bytes ≠ [])
    (hhint : ∀ hint, request.hint = some hint → hint.components.length < UInt32.size)
    {root : Metadata} (hmeta : t.metadata request.root = .ok root) (hdir : root.isDirectory = true)
    {result : ScanResult} {stats stats' : ScanStats}
    (h : hotPath t.view request stats = (some result, stats')) :
    ∃ n ∈ levelOrder t.view request root.modified, n.IsNewer request.threshold := by
  obtain ⟨rootNode, -, hnode, rfl⟩ := MemoryTree.metadata_eq_ok_iff.mp hmeta
  have hkind : rootNode.kind = .directory := by simpa [Metadata.isDirectory] using hdir
  obtain ⟨hint, depth, target, found, time, -, -, husable, htarget, hfound⟩ := hotPath_eq_some h
  obtain ⟨hgiven, -, hdepth, hle⟩ := usableHint?_eq_some_iff.mp husable
  obtain ⟨names, hnames, hplace⟩ :=
    components_hintTarget t.view hroot hdepth (hhint hint hgiven)
  have hmetaTarget := hintTarget_snd t request hint depth
  rw [htarget] at hplace hmetaTarget
  rcases hfound with hnewer | ⟨hlt, entries, hentries, e, he, hnewer⟩
  · obtain ⟨node, -, hn, rfl⟩ := MemoryTree.metadata_eq_ok_iff.mp hmetaTarget.symm
    rw [hplace] at hn
    obtain ⟨n, hmem, hstands⟩ := exists_standsFor hreach hordinary.allowed hnode hkind
      (liesOpen_of_isOrdinary hordinary hroot hn) (by omega) hn
    exact ⟨n, hmem, time, hstands.modified.trans (newer?_eq_some.mp hnewer).1,
      (newer?_eq_some.mp hnewer).2⟩
  · obtain ⟨name, node, hn, rfl⟩ := (MemoryTree.mem_readDir_iff hentries).mp he
    rw [hplace, List.append_assoc, ← List.map_singleton, ← List.map_append] at hn
    obtain ⟨n, hmem, hstands⟩ := exists_standsFor hreach hordinary.allowed hnode hkind
      (liesOpen_of_isOrdinary hordinary hroot hn) (by simp; omega) hn
    exact ⟨n, hmem, time, hstands.modified.trans (newer?_eq_some.mp hnewer).1,
      (newer?_eq_some.mp hnewer).2⟩

/-- On an ordinary tree a hint makes no difference to whether a scan finds a change. -/
theorem hasChanges_scan_eq (hreach : t.Reachable) (hordinary : t.IsOrdinary)
    (hroot : request.root.bytes ≠ [])
    (hhint : ∀ hint, request.hint = some hint → hint.components.length < UInt32.size) :
    (scan t.view request).hasChanges =
      (scan t.view { request with hint := none }).hasChanges := by
  refine Bool.eq_iff_iff.mpr ⟨fun h => ?_, hasChanges_scan_of_no_hint⟩
  obtain ⟨root, hmeta, hdir, hfound⟩ := hasChanges_scan_iff.mp h
  refine hasChanges_scan_iff.mpr ⟨root, hmeta, hdir, .inr ?_⟩
  rcases hfound with ⟨result, hresult⟩ | hfound
  · exact exists_newer_of_hotPath hreach hordinary hroot hhint hmeta hdir (Prod.ext hresult rfl)
  · exact hfound

end Scan

end IncrementalBackup
