import IncrementalBackup.Dedup.Locks
import IncrementalBackup.Proofs.Dedup.Fill
import IncrementalBackup.Proofs.OrderedMap

/-!
# Spellings of a package name

A package has its directory by the component of its name, but its lock and its records by the text of
it. Separators and `.` behind a name change the text and not the component. So two texts have one
directory exactly when they spell one name, and two that differ have two locks and two sets of
records.
-/

namespace IncrementalBackup

namespace PackageLocks

/-- Whatever is locked already, the lock of the second name is there once the first one is. -/
def IsShared (package other : String) : Prop :=
  ∀ locks : PackageLocks, (locks.enter package).enter other = locks.enter package

theorem isShared_iff {package other : String} : IsShared package other ↔ package = other := by
  constructor
  · intro h
    have hnames := congrArg (fun locks => locks.names.get? other) (h empty)
    rw [enter, OrderedMap.get?_insert, if_pos rfl, enter, OrderedMap.get?_insert] at hnames
    by_contra hne
    rw [if_neg (Ne.symm hne)] at hnames
    cases hnames
  · rintro rfl locks
    refine congrArg PackageLocks.mk (OrderedMap.ext_get? fun name => ?_)
    simp only [enter, OrderedMap.get?_insert]
    split <;> rfl

end PackageLocks

namespace DedupStore

open Dedup

def HaveSameRecords (package other : String) : Prop :=
  ∀ records : List BackupRecord,
    records.filter (fun r => r.packageName == package) =
      records.filter (fun r => r.packageName == other)

theorem haveSameRecords_iff {package other : String} :
    HaveSameRecords package other ↔ package = other := by
  constructor
  · intro h
    let r : BackupRecord := ⟨package, "b", ⟨0, 0⟩, none, 1, none⟩
    have hown : r ∈ [r].filter (fun r => r.packageName == package) := by simp [r]
    rw [h [r], List.mem_filter] at hown
    exact beq_iff_eq.mp hown.2
  · rintro rfl records
    rfl

/-- Two different texts that spell one name. -/
def AreSpellings (package other : String) : Prop :=
  ∃ name tail otherTail, Path.IsPlain name ∧ Path.IsVoidTail tail ∧ Path.IsVoidTail otherTail ∧
    tail ≠ otherTail ∧ Utf8.encode package = name ++ tail ∧ Utf8.encode other = name ++ otherTail

variable {s : DedupStore} {package other : String} {dir otherDir : Path}

theorem packageDir_of_components {name : List UInt8}
    (h : (Path.ofString package).components = [.name name]) :
    s.packageDir package = .ok (s.root.join (.ofString package)) := by
  rw [packageDir, isPackageName, h]
  rfl

theorem AreSpellings.ne (h : AreSpellings package other) : package ≠ other := by
  obtain ⟨name, tail, otherTail, -, -, -, hne, hpackage, hother⟩ := h
  rintro rfl
  exact hne (List.append_cancel_left (hpackage.symm.trans hother))

theorem AreSpellings.exists_same (h : AreSpellings package other) (s : DedupStore) :
    ∃ dir otherDir, s.packageDir package = .ok dir ∧ s.packageDir other = .ok otherDir ∧
      dir.same otherDir = true := by
  obtain ⟨name, tail, otherTail, hplain, htail, hotherTail, -, hpackage, hother⟩ := h
  have hname : (Path.ofString package).components = [.name name] :=
    Path.components_eq_name_iff.mpr ⟨hplain, tail, htail, hpackage⟩
  have hotherName : (Path.ofString other).components = [.name name] :=
    Path.components_eq_name_iff.mpr ⟨hplain, otherTail, hotherTail, hother⟩
  refine ⟨_, _, packageDir_of_components hname, packageDir_of_components hotherName, ?_⟩
  rw [Path.same, beq_iff_eq, Path.components_join_of_eq_name hname,
    Path.components_join_of_eq_name hotherName]

theorem areSpellings_of_same (hdir : s.packageDir package = .ok dir)
    (hother : s.packageDir other = .ok otherDir) (hsame : dir.same otherDir = true)
    (hne : package ≠ other) : AreSpellings package other := by
  obtain ⟨name, hname, -⟩ := packageDir_eq_ok hdir
  have hotherName : (Path.ofString other).components = [.name name] :=
    ((components_packageDir_eq_iff hdir hother).mp (beq_iff_eq.mp hsame)).symm.trans hname
  obtain ⟨hplain, tail, htail, hbytes⟩ := Path.components_eq_name_iff.mp hname
  obtain ⟨-, otherTail, hotherTail, hotherBytes⟩ := Path.components_eq_name_iff.mp hotherName
  refine ⟨name, tail, otherTail, hplain, htail, hotherTail, ?_, hbytes, hotherBytes⟩
  rintro rfl
  exact hne (Utf8.encode_injective (hbytes.trans hotherBytes.symm))

/-- Two names with one directory are one name, with one lock and the same records, unless they are two
spellings of one; those do have one directory, and neither the lock nor the records in common. Names
without separators have no other spelling. -/
theorem packages_of_same_directory_iff (s : DedupStore) (package other : String) :
    ((∀ dir otherDir, s.packageDir package = .ok dir → s.packageDir other = .ok otherDir →
        dir.same otherDir = true →
        package = other ∧ PackageLocks.IsShared package other ∧ HaveSameRecords package other) ↔
      ¬ AreSpellings package other) ∧
    (AreSpellings package other →
      (∃ dir otherDir, s.packageDir package = .ok dir ∧ s.packageDir other = .ok otherDir ∧
        dir.same otherDir = true) ∧
      ¬ PackageLocks.IsShared package other ∧ ¬ HaveSameRecords package other) ∧
    (Path.separator ∉ Utf8.encode package → Path.separator ∉ Utf8.encode other →
      ¬ AreSpellings package other) := by
  refine ⟨⟨?_, ?_⟩, ?_, ?_⟩
  · intro hone hspellings
    obtain ⟨dir, otherDir, hdir, hother, hsame⟩ := hspellings.exists_same s
    exact hspellings.ne (hone dir otherDir hdir hother hsame).1
  · intro hspellings dir otherDir hdir hother hsame
    have heq : package = other := by
      by_contra hne
      exact hspellings (areSpellings_of_same hdir hother hsame hne)
    exact ⟨heq, PackageLocks.isShared_iff.mpr heq, haveSameRecords_iff.mpr heq⟩
  · intro hspellings
    exact ⟨hspellings.exists_same s, fun h => hspellings.ne (PackageLocks.isShared_iff.mp h),
      fun h => hspellings.ne (haveSameRecords_iff.mp h)⟩
  · rintro hsep hotherSep ⟨name, tail, otherTail, -, htail, hotherTail, hne, hbytes, hotherBytes⟩
    rw [hbytes, List.mem_append, not_or] at hsep
    rw [hotherBytes, List.mem_append, not_or] at hotherSep
    exact hne ((htail.eq_nil hsep.2).trans (hotherTail.eq_nil hotherSep.2).symm)

/-- A separator behind a name leaves the directory the same. There are two locks for it, and a record
of the one text is none of the other. -/
theorem same_directory_of_trailing_separator :
    let s : DedupStore := ⟨.ofString "/s", .default⟩
    let r : BackupRecord := ⟨"x", "b", ⟨0, 0⟩, none, 1, some "k"⟩
    s.packageDir "x" = .ok (.ofString "/s/x") ∧ s.packageDir "x/" = .ok (.ofString "/s/x/") ∧
      (Path.ofString "/s/x").same (.ofString "/s/x/") = true ∧ "x" ≠ "x/" ∧
      ((PackageLocks.empty.enter "x").enter "x/").tracked = 2 ∧
      [r].filter (fun r => r.packageName == "x") = [r] ∧
      [r].filter (fun r => r.packageName == "x/") = [] := by
  decide

theorem debug_build_has_own_name :
    (⟨.ofString "/s", .default⟩ : DedupStore).packageDir "com.example" =
        .ok (.ofString "/s/com.example") ∧
      (⟨.ofString "/s", .default⟩ : DedupStore).packageDir "com.example.debug" =
        .ok (.ofString "/s/com.example.debug") ∧
      ¬ AreSpellings "com.example" "com.example.debug" := by
  refine ⟨by decide, by decide, ?_⟩
  exact (packages_of_same_directory_iff ⟨.ofString "/s", .default⟩ "com.example"
    "com.example.debug").2.2 (by decide) (by decide)

end DedupStore

end IncrementalBackup
