import IncrementalBackup.Proofs.HotPaths.Cache

/-!
# Snapshots in normal form

A snapshot may list entries in any order, and several for one package and category. Restored and taken
again it lists the last one of each, in order. Entries for different packages or categories may be
moved past each other before that without a difference.
-/

namespace IncrementalBackup

namespace HotPathEntry

def key (e : HotPathEntry) : HotPathKey := ⟨e.package, e.category⟩

/-- The order of entries: by the bytes of the package, then by category. -/
def Precedes (a b : HotPathEntry) : Prop :=
  compareBytes (Utf8.encode a.package) (Utf8.encode b.package) = .lt ∨
    (a.package = b.package ∧ a.category.rank < b.category.rank)

theorem precedes_iff {a b : HotPathEntry} :
    a.Precedes b ↔ HotPathKey.compare a.key b.key = .lt := by
  change _ ↔ (compareBytes (Utf8.encode a.package) (Utf8.encode b.package)).then
    (Ord.compare a.category.rank b.category.rank) = .lt
  have hself : a.package = b.package ↔
      compareBytes (Utf8.encode a.package) (Utf8.encode b.package) = .eq := by
    constructor
    · intro h
      rw [h]
      exact Std.ReflCmp.compare_self
    · exact fun h => Utf8.encode_injective (Std.LawfulEqCmp.eq_of_compare h)
  rw [Precedes, hself, Ordering.then_eq_lt, Nat.compare_eq_lt]

end HotPathEntry

namespace HotPathSnapshot

/-- What the last entry for a package and a category says. -/
def lastPath? (s : HotPathSnapshot) (package : String) (category : DataCategory) : Option Path :=
  (s.entries.filter fun e => e.package = package ∧ e.category = category).getLast?.map (·.path)

/-- The snapshot of what a snapshot restores to. -/
def normalForm (s : HotPathSnapshot) : HotPathSnapshot := (HotPathCache.ofSnapshot s).snapshot

/-- Lists that come from each other by moving entries of different keys past each other. -/
inductive IsMoved : List HotPathEntry → List HotPathEntry → Prop
  | refl (entries : List HotPathEntry) : IsMoved entries entries
  | swap (before after : List HotPathEntry) {a b : HotPathEntry} (h : a.key ≠ b.key) :
      IsMoved (before ++ a :: b :: after) (before ++ b :: a :: after)
  | trans {first second third : List HotPathEntry} (h : IsMoved first second)
      (h' : IsMoved second third) : IsMoved first third

theorem IsMoved.filter_key_eq {first second : List HotPathEntry} (h : IsMoved first second)
    (key : HotPathKey) :
    (first.filter fun e => e.key = key) = second.filter fun e => e.key = key := by
  induction h with
  | refl entries => rfl
  | @swap before after a b hne =>
    rw [List.filter_append, List.filter_append]
    by_cases ha : a.key = key
    · have hb : ¬ b.key = key := fun hb => hne (ha.trans hb.symm)
      simp [ha, hb]
    · simp [List.filter_cons, ha]
  | trans _ _ ih ih' => exact ih.trans ih'

variable {s : HotPathSnapshot}

theorem lastPath?_eq (s : HotPathSnapshot) (package : String) (category : DataCategory) :
    s.lastPath? package category =
      (s.entries.filter fun e => e.key = ⟨package, category⟩).getLast?.map (·.path) := by
  simp only [lastPath?, HotPathEntry.key, HotPathKey.mk.injEq]

theorem exists_lastPath?_iff {key : HotPathKey} :
    (∃ path, s.lastPath? key.package key.category = some path) ↔
      key ∈ s.entries.map HotPathEntry.key := by
  rw [lastPath?_eq, ← Option.isSome_iff_exists, Option.isSome_map, List.getLast?_isSome]
  simp

end HotPathSnapshot

namespace HotPathCache

open HotPathSnapshot

/-! ## Snapshots of caches -/

theorem mem_snapshot_iff {c : HotPathCache} {e : HotPathEntry} :
    e ∈ c.snapshot.entries ↔ c.get? e.package e.category = some e.path := by
  rw [get?, OrderedMap.get?_eq_some_iff]
  constructor
  · intro he
    obtain ⟨⟨key, path⟩, hmem, rfl⟩ := List.mem_map.mp he
    exact hmem
  · intro he
    exact List.mem_map.mpr ⟨_, he, rfl⟩

theorem pairwise_snapshot (c : HotPathCache) :
    c.snapshot.entries.Pairwise HotPathEntry.Precedes := by
  refine List.pairwise_map.mpr (c.paths.increasing.imp fun {a b} hlt => ?_)
  exact HotPathEntry.precedes_iff.mpr hlt

/-- Whatever order a cache lists its entries in, sorted by their keys they are those of its snapshot. -/
theorem mergeSort_eq_snapshot {c : HotPathCache} {listed : List HotPathEntry}
    (h : listed.Perm c.snapshot.entries) :
    listed.mergeSort (fun a b => (HotPathKey.compare a.key b.key).isLE) = c.snapshot.entries := by
  have hincreasing : c.snapshot.entries.Pairwise
      fun a b => compareBy HotPathEntry.key HotPathKey.compare a b = .lt :=
    (pairwise_snapshot c).imp HotPathEntry.precedes_iff.mp
  have hsorted : listed.mergeSort
      (fun a b => (compareBy HotPathEntry.key HotPathKey.compare a b).isLE) = c.snapshot.entries :=
    OrderedMap.mergeSort_eq_of_perm h hincreasing
  exact hsorted

/-! ## Restored snapshots -/

theorem get?_ofSnapshot (s : HotPathSnapshot) (package : String) (category : DataCategory) :
    (ofSnapshot s).get? package category = s.lastPath? package category := by
  rw [lastPath?_eq, get?, ofSnapshot, OrderedMap.get?_ofList, List.filter_map, List.getLast?_map,
    Option.map_map]
  rfl

theorem mem_keys_normalForm_iff {s : HotPathSnapshot} {key : HotPathKey} :
    key ∈ s.normalForm.entries.map HotPathEntry.key ↔ key ∈ s.entries.map HotPathEntry.key := by
  rw [List.mem_map, ← exists_lastPath?_iff]
  simp only [normalForm, mem_snapshot_iff, get?_ofSnapshot]
  constructor
  · rintro ⟨e, he, rfl⟩
    exact ⟨e.path, he⟩
  · rintro ⟨path, hpath⟩
    exact ⟨⟨key.package, key.category, path⟩, hpath, rfl⟩

theorem ofSnapshot_normalForm (s : HotPathSnapshot) : ofSnapshot s.normalForm = ofSnapshot s :=
  ofSnapshot_snapshot (ofSnapshot s)

theorem ofSnapshot_of_isMoved {s s' : HotPathSnapshot} (h : IsMoved s.entries s'.entries)
    (hlast : s'.lastChanged = s.lastChanged) : ofSnapshot s' = ofSnapshot s := by
  apply eq_of_sameFor
  intro package
  refine ⟨fun category => ?_, ?_⟩
  · rw [get?_ofSnapshot, get?_ofSnapshot, lastPath?_eq, lastPath?_eq, h.filter_key_eq]
  · rw [lastChangedCategory?, lastChangedCategory?, ofSnapshot, ofSnapshot, hlast]

/-- A snapshot restores to a cache that tells of every package what the last entries say, and the
snapshot of that is its normal form: in order, with one entry for each package and category, the same
however entries of different ones were moved past each other, and kept by restoring it. The snapshot
of a cache, in whatever order its entries are gathered, restores to what the cache tells. -/
theorem snapshot_restores_normalForm :
    (∀ s : HotPathSnapshot,
      (∀ package category, (ofSnapshot s).get? package category = s.lastPath? package category) ∧
      (∀ package, (ofSnapshot s).lastChangedCategory? package = s.lastChanged.get? package) ∧
      s.normalForm.entries.Pairwise HotPathEntry.Precedes ∧
      (∀ key, key ∈ s.normalForm.entries.map HotPathEntry.key ↔
        key ∈ s.entries.map HotPathEntry.key) ∧
      s.normalForm.normalForm = s.normalForm ∧
      ∀ s' : HotPathSnapshot, IsMoved s.entries s'.entries → s'.lastChanged = s.lastChanged →
        s'.normalForm = s.normalForm) ∧
    ∀ c : HotPathCache,
      (∀ listed : List HotPathEntry, listed.Perm c.snapshot.entries →
        listed.mergeSort (fun a b => (HotPathKey.compare a.key b.key).isLE) =
          c.snapshot.entries) ∧
      (∀ package category,
        (ofSnapshot c.snapshot).get? package category = c.get? package category) ∧
      (∀ package,
        (ofSnapshot c.snapshot).lastChangedCategory? package = c.lastChangedCategory? package) ∧
      (ofSnapshot c.snapshot).size = c.size ∧ (ofSnapshot c.snapshot).isEmpty = c.isEmpty := by
  constructor
  · intro s
    refine ⟨get?_ofSnapshot s, fun _ => rfl, pairwise_snapshot _, fun _ => mem_keys_normalForm_iff,
      ?_, fun s' hmoved hlast => ?_⟩
    · rw [normalForm, ofSnapshot_normalForm, normalForm]
    · rw [normalForm, ofSnapshot_of_isMoved hmoved hlast, normalForm]
  · intro c
    have hrestored := ofSnapshot_snapshot c
    exact ⟨fun _ => mergeSort_eq_snapshot, fun _ _ => by rw [hrestored],
      fun _ => by rw [hrestored], by rw [hrestored], by rw [hrestored]⟩

/-- Two paths for one package and category, with others before and between them. -/
def scattered : HotPathSnapshot :=
  ⟨[⟨"b", .media, .ofString "old"⟩, ⟨"b", .appData, .here⟩, ⟨"a", .obb, .ofString "x"⟩,
    ⟨"b", .media, .ofString "new"⟩], .ofList [("b", .media)]⟩

def scatteredMoved : HotPathSnapshot :=
  ⟨[⟨"b", .appData, .here⟩, ⟨"b", .media, .ofString "old"⟩, ⟨"a", .obb, .ofString "x"⟩,
    ⟨"b", .media, .ofString "new"⟩], .ofList [("b", .media)]⟩

theorem normalForm_scattered :
    IsMoved scattered.entries scatteredMoved.entries ∧
      scatteredMoved.normalForm = scattered.normalForm ∧
      scattered.normalForm.entries =
        [⟨"a", .obb, .ofString "x"⟩, ⟨"b", .appData, .here⟩, ⟨"b", .media, .ofString "new"⟩] ∧
      scattered.normalForm.entries.reverse.Perm (ofSnapshot scattered).snapshot.entries ∧
      scattered.normalForm.entries.reverse.mergeSort
        (fun a b => (HotPathKey.compare a.key b.key).isLE) = scattered.normalForm.entries := by
  have hmoved : IsMoved scattered.entries scatteredMoved.entries := .swap [] _ (by decide)
  have hlisted := List.reverse_perm scattered.normalForm.entries
  exact ⟨hmoved, (snapshot_restores_normalForm.1 scattered).2.2.2.2.2 scatteredMoved hmoved rfl,
    by decide +kernel, hlisted, (snapshot_restores_normalForm.2 (ofSnapshot scattered)).1 _ hlisted⟩

end HotPathCache

end IncrementalBackup
