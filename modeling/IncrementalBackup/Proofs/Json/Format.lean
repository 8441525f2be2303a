import IncrementalBackup.Json.Format

/-!
# Reading stored forms back

The fields of a record are found by their names, and a list of stored forms is read item by item.
-/

namespace IncrementalBackup.Json

theorem mapM_eq_some_map {α β : Type} {f : α → Option β} {g : α → β} {l : List α}
    (h : ∀ a ∈ l, f a = some (g a)) : l.mapM f = some (l.map g) := by
  induction l with
  | nil => rfl
  | cons a l ih =>
    obtain ⟨hhead, htail⟩ := List.forall_mem_cons.mp h
    simp [hhead, ih htail]

/-- Items that are read back one by one are read back as a list. -/
theorem list?_list {α : Type} {write : α → Json} {read : Json → Option α} {items : List α}
    (h : ∀ a ∈ items, read (write a) = some a) : list? read (.list write items) = some items := by
  have hitems : items.mapM (read ∘ write) = some (items.map id) := mapM_eq_some_map h
  rw [list, list?, List.mapM_map, hitems, List.map_id]

theorem valuesOf_append (name : String) (before after : List (JsonText × Json)) :
    valuesOf name (before ++ after) = valuesOf name before ++ valuesOf name after := by
  rw [valuesOf, List.filter_append, List.map_append]
  rfl

theorem valuesOf_eq_nil {name : String} {members : List (String × Json)}
    (h : name ∉ members.map Prod.fst) :
    valuesOf name (members.map fun m => (.text m.1, m.2)) = [] := by
  rw [valuesOf, List.map_eq_nil_iff, List.filter_eq_nil_iff, List.forall_mem_map]
  intro m hm hname
  have heq : m.1 = name := by simpa using hname
  exact h (heq ▸ List.mem_map_of_mem hm)

theorem field?_of_mem {members : List (String × Json)} (hnames : (members.map Prod.fst).Nodup)
    {m : String × Json} (hm : m ∈ members) :
    field? (members.map fun m => (.text m.1, m.2)) m.1 = some (some m.2) := by
  obtain ⟨before, after, rfl⟩ := List.append_of_mem hm
  rw [List.map_append, List.map_cons, List.nodup_append, List.nodup_cons] at hnames
  obtain ⟨-, ⟨hafter, -⟩, hbefore⟩ := hnames
  have hnot : m.1 ∉ before.map Prod.fst := fun h => hbefore _ h _ List.mem_cons_self rfl
  have hvalues : valuesOf m.1 ((before ++ m :: after).map fun m => (.text m.1, m.2)) = [m.2] := by
    rw [List.map_append, valuesOf_append, valuesOf_eq_nil hnot, List.nil_append, List.map_cons,
      ← List.singleton_append, valuesOf_append, valuesOf_eq_nil hafter]
    simp [valuesOf]
  rw [field?, hvalues]

/-- The names of a record give its values in order. -/
theorem fields?_record {members : List (String × Json)} (hnames : (members.map Prod.fst).Nodup) :
    fields? (members.map Prod.fst) (.record members) = some (members.map fun m => some m.2) := by
  have htext : (members.map fun m => (JsonText.text m.1, m.2)).all (isText ·.1) = true := by
    rw [List.all_map, List.all_eq_true]
    exact fun m _ => rfl
  rw [record, fields?, if_pos htext, List.mapM_map]
  exact mapM_eq_some_map fun m hm => field?_of_mem hnames hm

end IncrementalBackup.Json
