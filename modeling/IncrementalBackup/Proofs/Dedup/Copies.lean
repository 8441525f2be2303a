import IncrementalBackup.Dedup.Store
import IncrementalBackup.Proofs.Storage.Reachable

/-!
# Copying files into a directory

Copying changes nothing but the places one name below the directory. If no two of the files have the
same name, a copy never overwrites a file that is still to be copied, so each file is copied or not
as if it were the only one.
-/

namespace IncrementalBackup

namespace MemoryTree

def HasFile (t : MemoryTree) (l : Location) : Prop := ∃ n, t.node? l = some n ∧ n.kind = .file

def CanCopy (t : MemoryTree) (dir p : Path) : Prop :=
  ∃ name n, p.fileName? = some name ∧ t.node p = .ok n ∧
    t.IsAllowed (dir.components ++ [.name name])

variable {t : MemoryTree} {dir p : Path}

theorem copyFile_join {name : List UInt8} (hname : Path.IsPlain name) {above n : MemoryNode}
    (habove : t.node? dir.components = some above) (hdir : above.kind = .directory)
    (hn : t.node p = .ok n) (hallowed : t.IsAllowed (dir.components ++ [.name name])) :
    copyFile p (dir.join ⟨name⟩) t =
      (.ok n.data.length, t.withFile (dir.components ++ [.name name]) n.data) := by
  have htarget := Path.components_join_of_isPlain dir hname
  have hparent := (dir.join ⟨name⟩).components_parent?
  rw [htarget, Location.parent?_eq_some_iff.mpr ⟨.name name, nofun, rfl⟩] at hparent
  obtain ⟨q, hq, hqdir⟩ := Option.map_eq_some_iff.mp hparent
  rw [← htarget] at hallowed ⊢
  refine copyFile_of_hasDirectory hn hallowed ⟨above, ?_, hdir⟩
  rw [hq, Option.getD_some, hqdir, habove]

end MemoryTree

namespace DedupStore

open MemoryTree Dedup

variable {t : MemoryTree} {dir p : Path}

def copied (dir : Path) (t : MemoryTree) (p : Path) : MemoryTree :=
  match p.fileName? with
  | none => t
  | some name => (copyFile p (dir.join ⟨name⟩) t).2

theorem copyAll_snd (dir : Path) (paths : List Path) (t : MemoryTree) :
    (copyAll dir paths t).2 = paths.foldl (copied dir) t := by
  induction paths generalizing t with
  | nil => rfl
  | cons p paths ih =>
    rw [List.foldl_cons, ← ih, copyAll]
    cases hname : p.fileName? with
    | none => simp [copied, hname]
    | some name =>
      simp only [copied, hname]
      change _ = (copyAll dir paths (Storage.copyFile p (dir.join ⟨name⟩) t).2).2
      rcases Storage.copyFile p (dir.join ⟨name⟩) t with ⟨_ | bytes, fs⟩ <;> rfl

theorem copied_of_canCopy {above : MemoryNode} (habove : t.node? dir.components = some above)
    (hdir : above.kind = .directory) {name : List UInt8} {n : MemoryNode}
    (hname : p.fileName? = some name) (hn : t.node p = .ok n)
    (hallowed : t.IsAllowed (dir.components ++ [.name name])) :
    copied dir t p = t.withFile (dir.components ++ [.name name]) n.data := by
  simp only [copied, hname]
  rw [copyFile_join (Path.isPlain_of_fileName? hname) habove hdir hn hallowed]

theorem copied_of_not_canCopy (h : ¬ t.CanCopy dir p) : copied dir t p = t := by
  unfold copied
  split
  · rfl
  · rename_i name hname
    rcases copyFile_cases p (dir.join ⟨name⟩) t with ⟨e, heq⟩ | ⟨n, hn, hallowed, -, -⟩
    · rw [heq]
    · rw [Path.components_join_of_isPlain dir (Path.isPlain_of_fileName? hname)] at hallowed
      exact absurd ⟨name, n, hname, hn, hallowed⟩ h

theorem node?_copied {above : MemoryNode} (habove : t.node? dir.components = some above)
    (hdir : above.kind = .directory) (l : Location) :
    (copied dir t p).node? l = t.node? l ∨
      ∃ name n, p.fileName? = some name ∧ l = dir.components ++ [.name name] ∧
        (copied dir t p).node? l = some ⟨.file, t.now, n⟩ := by
  by_cases hcopy : t.CanCopy dir p
  · obtain ⟨name, n, hname, hn, hallowed⟩ := hcopy
    rw [copied_of_canCopy habove hdir hname hn hallowed, node?_withFile]
    split
    · rename_i hl
      exact .inr ⟨name, n.data, hname, hl, rfl⟩
    · exact .inl rfl
  · exact .inl (by rw [copied_of_not_canCopy hcopy])

theorem isAllowed_copied (dir : Path) (t : MemoryTree) (p : Path) (l : Location) :
    (copied dir t p).IsAllowed l ↔ t.IsAllowed l := by
  unfold copied
  split
  · rfl
  · rename_i name hname
    rcases copyFile_cases p (dir.join ⟨name⟩) t with ⟨e, heq⟩ | ⟨n, -, -, -, heq⟩
    · rw [heq]
    · rw [heq]
      rfl

/-- A copy under one name leaves files with other names as they were. -/
theorem node_copied {above : MemoryNode} (habove : t.node? dir.components = some above)
    (hdir : above.kind = .directory) {q : Path} {n : MemoryNode}
    (hname : ∀ name, p.fileName? = some name → q.fileName? ≠ some name) :
    (copied dir t p).node q = .ok n ↔ t.node q = .ok n := by
  have hnode : (copied dir t p).node? q.components = t.node? q.components := by
    rcases node?_copied (p := p) habove hdir q.components with h | ⟨name, m, hp, hq, -⟩
    · exact h
    · refine absurd ?_ (hname name hp)
      rw [Path.fileName?, hq, Location.fileName?_eq_some_iff, List.getLast?_concat]
  rw [node_eq_ok_iff, node_eq_ok_iff, isAllowed_copied, hnode]

theorem now_copied (dir : Path) (t : MemoryTree) (p : Path) : (copied dir t p).now = t.now := by
  unfold copied
  split
  · rfl
  · rename_i name hname
    rcases copyFile_cases p (dir.join ⟨name⟩) t with ⟨e, heq⟩ | ⟨n, -, -, -, heq⟩
    · rw [heq]
    · rw [heq]
      rfl

/-- What copying a path puts into the directory under a name. -/
def IsCopy (t : MemoryTree) (dir p : Path) (name : List UInt8) (n : MemoryNode) : Prop :=
  p.fileName? = some name ∧ t.IsAllowed (dir.components ++ [.name name]) ∧
    ∃ m, t.node p = .ok m ∧ n = ⟨.file, t.now, m.data⟩

theorem canCopy_iff {name : List UInt8} :
    p.fileName? = some name ∧ t.CanCopy dir p ↔ ∃ n, IsCopy t dir p name n := by
  constructor
  · rintro ⟨hname, other, m, hother, hm, hallowed⟩
    obtain rfl : name = other := Option.some.inj (hname.symm.trans hother)
    exact ⟨_, hname, hallowed, m, hm, rfl⟩
  · rintro ⟨n, hname, hallowed, m, hm, -⟩
    exact ⟨hname, name, m, hname, hm, hallowed⟩

theorem isCopy_copied {above : MemoryNode} (habove : t.node? dir.components = some above)
    (hdir : above.kind = .directory) {q : Path} {name : List UInt8} {n : MemoryNode}
    (hname : ∀ name, p.fileName? = some name → q.fileName? ≠ some name) :
    IsCopy (copied dir t p) dir q name n ↔ IsCopy t dir q name n := by
  simp only [IsCopy, isAllowed_copied, node_copied habove hdir hname, now_copied]

theorem node?_copied_name {above : MemoryNode} (habove : t.node? dir.components = some above)
    (hdir : above.kind = .directory) {name : List UInt8} {n : MemoryNode} :
    (copied dir t p).node? (dir.components ++ [.name name]) = some n ↔
      IsCopy t dir p name n ∨ ((∀ m, ¬ IsCopy t dir p name m) ∧
        t.node? (dir.components ++ [.name name]) = some n) := by
  by_cases hcopy : ∃ m, IsCopy t dir p name m
  · obtain ⟨m, hm⟩ := hcopy
    obtain ⟨hname, hallowed, source, hsource, rfl⟩ := hm
    rw [copied_of_canCopy habove hdir hname hsource hallowed, node?_withFile, if_pos rfl]
    simp [IsCopy, hname, hallowed, hsource, eq_comm]
  · have hnone : ∀ m, ¬ IsCopy t dir p name m := fun m hm => hcopy ⟨m, hm⟩
    have hkeep : (copied dir t p).node? (dir.components ++ [.name name]) =
        t.node? (dir.components ++ [.name name]) := by
      by_cases hother : t.CanCopy dir p
      · obtain ⟨other, m, hname, hm, hallowed⟩ := hother
        have hne : name ≠ other := by
          rintro rfl
          exact hnone _ ⟨hname, hallowed, m, hm, rfl⟩
        rw [copied_of_canCopy habove hdir hname hm hallowed, node?_withFile, if_neg (by simpa)]
      · rw [copied_of_not_canCopy hother]
    simp [hnone, hkeep]

/-! ## All copies together -/

theorem node?_foldl_copied {above : MemoryNode} (habove : t.node? dir.components = some above)
    (hdir : above.kind = .directory) (paths : List Path) {l : Location}
    (hl : ∀ name, l ≠ dir.components ++ [.name name]) :
    (paths.foldl (copied dir) t).node? l = t.node? l := by
  induction paths generalizing t with
  | nil => rfl
  | cons p paths ih =>
    have hkeep : ∀ l : Location, (∀ name, l ≠ dir.components ++ [.name name]) →
        (copied dir t p).node? l = t.node? l := by
      intro l hl
      rcases node?_copied (p := p) habove hdir l with h | ⟨name, n, -, hname, -⟩
      · exact h
      · exact absurd hname (hl name)
    rw [List.foldl_cons, ih ((hkeep _ (by simp)).trans habove), hkeep l hl]

theorem isAllowed_foldl_copied (dir : Path) (paths : List Path) (t : MemoryTree) (l : Location) :
    (paths.foldl (copied dir) t).IsAllowed l ↔ t.IsAllowed l := by
  induction paths generalizing t with
  | nil => rfl
  | cons p paths ih => rw [List.foldl_cons, ih, isAllowed_copied]

theorem fileName?_ne_of_nodup {paths : List Path}
    (hnodup : ((p :: paths).filterMap Path.fileName?).Nodup) {q : Path} (hq : q ∈ paths) :
    ∀ name, p.fileName? = some name → q.fileName? ≠ some name := by
  intro name hp hsame
  rw [List.filterMap_cons, hp] at hnodup
  exact (List.nodup_cons.mp hnodup).1 (List.mem_filterMap.mpr ⟨q, hq, hsame⟩)

theorem nodup_fileName?_tail {paths : List Path}
    (hnodup : ((p :: paths).filterMap Path.fileName?).Nodup) :
    (paths.filterMap Path.fileName?).Nodup := by
  rw [List.filterMap_cons] at hnodup
  split at hnodup
  · exact hnodup
  · exact (List.nodup_cons.mp hnodup).2

/-- Under each name there is the copy of the file with that name, or what was there before. -/
theorem node?_foldl_copied_name {above : MemoryNode} (habove : t.node? dir.components = some above)
    (hdir : above.kind = .directory) {paths : List Path}
    (hnodup : (paths.filterMap Path.fileName?).Nodup) {name : List UInt8} {n : MemoryNode} :
    (paths.foldl (copied dir) t).node? (dir.components ++ [.name name]) = some n ↔
      (∃ p ∈ paths, IsCopy t dir p name n) ∨ ((∀ p ∈ paths, ∀ m, ¬ IsCopy t dir p name m) ∧
        t.node? (dir.components ++ [.name name]) = some n) := by
  induction paths generalizing t with
  | nil => simp
  | cons p paths ih =>
    have hother : ∀ q ∈ paths, ∀ m, IsCopy (copied dir t p) dir q name m ↔
        IsCopy t dir q name m :=
      fun q hq m => isCopy_copied habove hdir (fileName?_ne_of_nodup hnodup hq)
    have hnode : (copied dir t p).node? dir.components = some above :=
      (node?_foldl_copied habove hdir [p] (by simp)).trans habove
    -- Only one of the files has the name.
    have hone : ∀ m, IsCopy t dir p name m → ∀ q ∈ paths, ∀ m, ¬ IsCopy t dir q name m :=
      fun _ hm q hq _ hq' => fileName?_ne_of_nodup hnodup hq name hm.1 hq'.1
    rw [List.foldl_cons, ih hnode (nodup_fileName?_tail hnodup), node?_copied_name habove hdir,
      List.exists_mem_cons_iff, List.forall_mem_cons]
    constructor
    · rintro (⟨q, hq, hcopy⟩ | ⟨hrest, hcopy | ⟨hfirst, hn⟩⟩)
      · exact .inl (.inr ⟨q, hq, (hother q hq n).mp hcopy⟩)
      · exact .inl (.inl hcopy)
      · exact .inr ⟨⟨hfirst, fun q hq m hm => hrest q hq m ((hother q hq m).mpr hm)⟩, hn⟩
    · rintro ((hcopy | ⟨q, hq, hcopy⟩) | ⟨⟨hfirst, hrest⟩, hn⟩)
      · exact .inr ⟨fun q hq m hm => hone n hcopy q hq m ((hother q hq m).mp hm), .inl hcopy⟩
      · exact .inl ⟨q, hq, (hother q hq n).mpr hcopy⟩
      · exact .inr ⟨fun q hq m hm => hrest q hq m ((hother q hq m).mp hm), .inr ⟨hfirst, hn⟩⟩

/-- If each file can be copied, the bytes copied are those of all files. -/
theorem copyAll_fst {above : MemoryNode} (habove : t.node? dir.components = some above)
    (hdir : above.kind = .directory) {paths : List Path}
    (hnodup : (paths.filterMap Path.fileName?).Nodup) {contents : Path → List UInt8}
    (hcopy : ∀ p ∈ paths, ∃ name n, IsCopy t dir p name n ∧ n.data = contents p) :
    (copyAll dir paths t).1 = (paths.map fun p => (contents p).length).foldr (· + ·) 0 := by
  induction paths generalizing t with
  | nil => rfl
  | cons p paths ih =>
    obtain ⟨name, n, ⟨hname, hallowed, m, hm, rfl⟩, hdata⟩ := hcopy p List.mem_cons_self
    have hnode : (copied dir t p).node? dir.components = some above :=
      (node?_foldl_copied habove hdir [p] (by simp)).trans habove
    have hrest := ih hnode (nodup_fileName?_tail hnodup) fun q hq => by
      obtain ⟨other, n, hn, hdata⟩ := hcopy q (List.mem_cons_of_mem p hq)
      exact ⟨other, n, (isCopy_copied habove hdir (fileName?_ne_of_nodup hnodup hq)).mpr hn, hdata⟩
    have hstorage : Storage.copyFile p (dir.join ⟨name⟩) t = (.ok m.data.length, copied dir t p) := by
      rw [copied_of_canCopy habove hdir hname hm hallowed]
      exact copyFile_join (Path.isPlain_of_fileName? hname) habove hdir hm hallowed
    simp only [copyAll, hname, hstorage, hrest, List.map_cons, List.foldr_cons, ← hdata]

end DedupStore

end IncrementalBackup
