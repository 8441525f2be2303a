import IncrementalBackup.Proofs.Path.Text
import IncrementalBackup.Proofs.Scan.Replay

/-!
# Paths at which changes are reported

A change is reported at the hint, or above a node that the full scan has come to. So on any view the
path is text if the hint is, since listings name nodes by texts. In a tree it has only names, not more
than the scan may go down, or it is `.` or the hint.
-/

namespace IncrementalBackup

/-- What a scan can report: `.` or some names, not too many. -/
def Path.IsDownTo (depth : Nat) (p : Path) : Prop :=
  p = .here ∨ ∃ names : List (List UInt8), names ≠ [] ∧ p.components = names.map .name ∧
    names.length ≤ depth

namespace Path

variable {p : Path} {depth depth' : Nat}

theorem IsDownTo.mono (h : p.IsDownTo depth) (hle : depth ≤ depth') : p.IsDownTo depth' := by
  rcases h with h | ⟨names, hne, hnames, hlength⟩
  · exact .inl h
  · exact .inr ⟨names, hne, hnames, hlength.trans hle⟩

theorem IsDownTo.nameCount? (h : p.IsDownTo depth) :
    p.components.nameCount? = some (p.components.filter Component.isName).length ∧
      (p.components.filter Component.isName).length ≤ depth := by
  rcases h with rfl | ⟨names, -, hnames, hlength⟩
  · exact ⟨by decide, Nat.zero_le _⟩
  · have hall : (names.map Component.name).filter Component.isName = names.map .name := by
      rw [List.filter_eq_self, List.forall_mem_map]
      exact fun name _ => rfl
    rw [hnames, hall, Location.nameCount?_names, List.length_map]
    exact ⟨rfl, hlength⟩

theorem IsDownTo.not_isAbsolute (h : p.IsDownTo depth) : ¬ p.isAbsolute = true :=
  not_isAbsolute_of_depth? (Option.map_eq_some_iff.mpr ⟨_, h.nameCount?.1, rfl⟩)

end Path

namespace ScanNode

variable {n : ScanNode}

theorem isText_reportPath (h : n.relative.IsText) : n.reportPath.IsText := by
  unfold reportPath
  split
  · rename_i above habove
    split
    · exact Path.isText_here
    · exact h.parent? habove
  · exact Path.isText_here

end ScanNode

namespace Scan

variable {view : View} {request : ScanRequest} {path : Path} {time : Instant}

/-- A change is reported at the hint, or where a node of the level order is reported. -/
theorem foundPath_cases (h : scan view request = .changed path time) :
    request.hint = some path ∨ ∃ root n, view.metadataFollow request.root = .ok root ∧
      root.isDirectory = true ∧ n ∈ levelOrder view request root.modified ∧
      path = n.reportPath := by
  obtain ⟨root, hroot, hdir, ⟨stats, hhot⟩ | ⟨n, hfirst, -, hpath⟩⟩ := scan_eq_changed h
  · obtain ⟨hint, depth, _, _, _, hresult, -, husable, -⟩ := hotPath_eq_some hhot
    cases hresult
    exact .inl (usableHint?_eq_some_iff.mp husable).1
  · exact .inr ⟨root, n, hroot, hdir, List.mem_of_find?_eq_some hfirst, hpath⟩

theorem isText_relative {rootModified : Option Instant} :
    ∀ n ∈ levelOrder view request rootModified, n.relative.IsText := by
  apply forall_mem_levelsFrom
  · intro n hn
    obtain rfl := List.mem_singleton.mp hn
    exact (by decide : Path.IsText ⟨[]⟩)
  · intro p hp n hlisted
    obtain ⟨entries, -, e, -, rfl⟩ := exists_entry_of_mem_listing hlisted
    exact hp.join (Path.isText_ofString e.name)

theorem isText_foundPath (h : scan view request = .changed path time)
    (hhint : ∀ hint, request.hint = some hint → hint.IsText) : path.IsText := by
  rcases foundPath_cases h with hsame | ⟨root, n, -, -, hn, rfl⟩
  · exact hhint path hsame
  · exact ScanNode.isText_reportPath (isText_relative n hn)

/-- A node is reported at `.` or at the names above it. -/
theorem StandsFor.isDownTo_reportPath {n : ScanNode} {names : List (List UInt8)}
    {node : MemoryNode} (h : StandsFor n names node) : n.reportPath.IsDownTo n.depth := by
  unfold ScanNode.reportPath
  split
  · rename_i above habove
    split
    · exact .inl rfl
    · rename_i hne
      have hparent := Path.components_parent? n.relative
      rw [habove, h.relative] at hparent
      obtain ⟨c, -, hcomponents⟩ := Location.parent?_eq_some_iff.mp hparent.symm
      obtain ⟨before, last, hnames, hbefore, -⟩ := List.map_eq_append_iff.mp hcomponents
      refine .inr ⟨before, ?_, hbefore.symm, ?_⟩
      · rintro rfl
        exact hne (List.isEmpty_iff.mpr (Path.components_eq_nil_iff.mp hbefore.symm))
      · have hlength := congrArg List.length hnames
        rw [List.length_map, List.length_append, ← h.depth] at hlength
        omega
  · exact .inl rfl

theorem isDownTo_foundPath {t : MemoryTree} (hreach : t.Reachable)
    (h : scan t.view request = .changed path time) {depth : Nat}
    (hhint : ∀ hint, request.hint = some hint → hint.IsDownTo depth) :
    path.IsDownTo (max depth request.maxDepth) := by
  rcases foundPath_cases h with hsame | ⟨root, n, hroot, hdir, hn, rfl⟩
  · exact (hhint path hsame).mono (Nat.le_max_left _ _)
  · obtain ⟨node, -, hnode, rfl⟩ := MemoryTree.metadata_eq_ok_iff.mp hroot
    have hkind : node.kind = .directory := by simpa [Metadata.isDirectory] using hdir
    obtain ⟨names, below, hstands, -⟩ := exists_of_mem_levelOrder hreach hnode hkind n hn
    exact hstands.isDownTo_reportPath.mono
      ((depth_le_of_mem_levelOrder hn).trans (Nat.le_max_right _ _))

end Scan

end IncrementalBackup
