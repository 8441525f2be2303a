import IncrementalBackup.Dedup.Store
import IncrementalBackup.Proofs.Storage.MemoryTree
import IncrementalBackup.Proofs.Text.Utf8

/-!
# Keys in order

A package lists the names of its directories in order. If they are texts, none is listed twice: a
listing then shows different names as different texts.
-/

namespace IncrementalBackup

/-! ## Lists of keys -/

namespace DedupKey

instance : Std.TransCmp compare := inferInstanceAs (Std.TransCmp (compareBy text Utf8.compare))

instance : Std.LawfulEqCmp compare := lawfulEqCmp_of_part text fun a b h => by
  cases a
  cases b
  exact congrArg DedupKey.mk h

/-- Keys in order, none of them twice. -/
def AreSorted (keys : List DedupKey) : Prop := keys.Pairwise fun a b => a.compare b = .lt

variable {keys others : List DedupKey}

theorem AreSorted.nodup (h : AreSorted keys) : keys.Nodup := h.imp OrderedMap.ne_of_compare_lt

theorem AreSorted.filter (h : AreSorted keys) (p : DedupKey → Bool) : AreSorted (keys.filter p) :=
  List.Pairwise.filter p h

/-- Sorted lists of the same keys are the same. -/
theorem AreSorted.eq_of_mem_iff (h : AreSorted keys) (hothers : AreSorted others)
    (hmem : ∀ key, key ∈ keys ↔ key ∈ others) : keys = others :=
  OrderedMap.eq_of_mem_iff h hothers hmem

theorem areSorted_mergeSort (hnodup : keys.Nodup) :
    AreSorted (keys.mergeSort fun a b => (compare a b).isLE) := by
  have hsorted : (keys.mergeSort fun a b => (compare a b).isLE).Pairwise
      fun a b => (compare a b).isLE = true := OrderedMap.pairwise_isLE_mergeSort keys
  refine (hsorted.and ((List.mergeSort_perm keys _).nodup_iff.mpr hnodup)).imp ?_
  rintro a b ⟨hle, hne⟩
  cases hcompare : compare a b with
  | lt => rfl
  | eq => exact absurd (Std.LawfulEqCmp.eq_of_compare hcompare) hne
  | gt =>
    rw [hcompare] at hle
    cases hle

end DedupKey

/-! ## Listings without repetition -/

namespace MemoryTree

variable {t : MemoryTree} {p : Path}

/-- The names directly below a place are texts. -/
def HasTextNamesIn (t : MemoryTree) (l : Location) : Prop :=
  ∀ name n, t.node? (l ++ [.name name]) = some n → Utf8.isValid name = true

/-- Names that are texts are shown as different texts. -/
theorem nodup_readDir {entries : List Entry} (h : t.readDir p = .ok entries)
    (htext : t.HasTextNamesIn p.components) : (entries.map (·.name)).Nodup := by
  obtain ⟨above, hallowed, habove, hdir⟩ := readDir_eq_ok h
  rw [readDir_of_isDirectory hallowed habove hdir] at h
  obtain rfl := Except.ok.inj h
  have hchild : ∀ e ∈ t.children p.components, ∀ shown, entry? e.1 e.2 = some shown →
      e.1 = p.components ++ [.name (Utf8.encode shown.name)] := by
    rintro ⟨l, n⟩ hmem shown hshown
    obtain ⟨hn, hparent⟩ := (mem_children_iff (Option.isSome_iff_exists.mpr ⟨_, habove⟩)).mp hmem
    obtain ⟨name, hname, rfl⟩ := entry?_eq_some_iff.mp hshown
    obtain ⟨c, -, rfl⟩ := Location.parent?_eq_some_iff.mp hparent
    rw [Location.fileName?_eq_some_iff, List.getLast?_concat] at hname
    obtain rfl := Option.some.inj hname
    rw [Utf8.encode_lossy_of_isValid (htext name n hn)]
  rw [List.Nodup, List.pairwise_map, List.pairwise_filterMap]
  refine (pairwise_children t p.components).imp_of_mem ?_
  intro a b ha hb hlt shown hshown other hother hsame
  refine OrderedMap.ne_of_compare_lt hlt ?_
  rw [hchild a ha shown hshown, hchild b hb other hother, hsame]

end MemoryTree

namespace DedupStore

open MemoryTree

variable {s : DedupStore} {package : String} {t : MemoryTree} {packageDir : Path}
  {keys : List DedupKey}

theorem areSorted_dedupKeys (hpackage : s.packageDir package = .ok packageDir)
    (htext : t.HasTextNamesIn packageDir.components)
    (hkeys : s.dedupKeys package t.view = .ok keys) : DedupKey.AreSorted keys := by
  have hview : t.view.readDir packageDir = t.readDir packageDir := rfl
  rw [dedupKeys, hpackage] at hkeys
  dsimp only at hkeys
  rw [hview] at hkeys
  cases hlist : t.readDir packageDir with
  | ok entries =>
    rw [hlist] at hkeys
    obtain rfl := Except.ok.inj hkeys
    apply DedupKey.areSorted_mergeSort
    have hnames : ((entries.filter fun e => e.kind == .directory).map (·.name)).Nodup :=
      (nodup_readDir hlist htext).sublist (List.filter_sublist.map _)
    rw [List.Nodup, List.pairwise_map] at hnames ⊢
    exact hnames.imp fun hne heq => hne (congrArg DedupKey.text heq)
  | error e =>
    rw [hlist] at hkeys
    cases e with
    | notFound p =>
      obtain rfl := Except.ok.inj hkeys
      exact .nil
    | notADirectory p => cases hkeys
    | storage failure => cases hkeys

end DedupStore

end IncrementalBackup
