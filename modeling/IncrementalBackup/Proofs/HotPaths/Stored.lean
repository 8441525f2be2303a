import IncrementalBackup.Proofs.HotPaths.Cache
import IncrementalBackup.Proofs.Json.Stored
import IncrementalBackup.Proofs.Path.Text

/-!
# Stored hot paths

A path that is text has a stored form, and every path that has been read is text. A snapshot whose
paths are text has a stored form, and is read back from it.
-/

namespace IncrementalBackup

namespace Path

variable {p : Path}

theorem IsText.text? (h : p.IsText) : p.text? = some p.display := by
  rw [Path.text?, ← Utf8.encode_lossy_of_isValid h, Utf8.decode?_encode, display]

theorem IsText.ofString_display (h : p.IsText) : ofString p.display = p := by
  rw [ofString, display, Utf8.encode_lossy_of_isValid h]

theorem IsText.toJson? (h : p.IsText) : JsonFormat.toJson? p = some (.ofString p.display) := by
  change p.text?.map Json.ofString = _
  rw [h.text?, Option.map_some]

theorem IsText.ofJson? (h : p.IsText) :
    JsonFormat.ofJson? (Json.ofString p.display) = some p :=
  congrArg some h.ofString_display

theorem isText_of_ofJson? {form : Json} (h : JsonFormat.ofJson? form = some p) : p.IsText := by
  obtain ⟨text, -, rfl⟩ := Option.map_eq_some_iff.mp h
  exact isText_ofString text

/-- Paths that are text are stored and read back as a list. -/
theorem mapM_toJson? {paths : List Path} (h : ∀ p ∈ paths, p.IsText) :
    paths.mapM JsonFormat.toJson? = some (paths.map fun p => .ofString p.display) :=
  Json.mapM_eq_some_map fun p hp => (h p hp).toJson?

theorem list?_ofJson? {paths : List Path} (h : ∀ p ∈ paths, p.IsText) :
    Json.list? JsonFormat.ofJson? (.list (fun p : Path => .ofString p.display) paths) =
      some paths :=
  Json.list?_list fun p hp => (h p hp).ofJson?

end Path

namespace HotPathEntry

def stored (e : HotPathEntry) : Json :=
  .record [("package", .ofString e.package), ("category", .ofString e.category.name),
    ("path", .ofString e.path.display)]

variable {e : HotPathEntry}

theorem toJson?_eq_stored (h : e.path.IsText) : JsonFormat.toJson? e = some e.stored := by
  change (JsonFormat.toJson? e.path).bind _ = _
  rw [h.toJson?]
  rfl

theorem ofJson?_stored (h : e.path.IsText) : JsonFormat.ofJson? e.stored = some e := by
  have hfields : Json.fields? ["package", "category", "path"] e.stored =
      some [some (.ofString e.package), some (.ofString e.category.name),
        some (.ofString e.path.display)] := Json.fields?_record (by simp)
  have hcategory : JsonFormat.ofJson? (Json.ofString e.category.name) = some e.category :=
    DataCategory.ofName?_name e.category
  have hpackage : Json.text? (.ofString e.package) = some e.package := rfl
  unfold JsonFormat.ofJson? instJsonFormat
  simp only [hfields, Json.required?, hpackage, hcategory, h.ofJson?, Option.bind_eq_bind,
    Option.bind_some]

theorem isText_of_ofJson? {form : Json} (h : JsonFormat.ofJson? form = some e) : e.path.IsText := by
  unfold JsonFormat.ofJson? instJsonFormat at h
  dsimp only at h
  split at h
  · simp only [Option.bind_eq_bind, Option.bind_eq_some_iff] at h
    obtain ⟨_, -, _, -, path, hpath, h⟩ := h
    cases h
    obtain ⟨field, hfield⟩ := Json.required?_eq_some hpath
    exact Path.isText_of_ofJson? hfield
  · cases h

end HotPathEntry

namespace HotPathSnapshot

def stored (s : HotPathSnapshot) : Json :=
  .record [("entries", .list HotPathEntry.stored s.entries),
    ("last_changed", lastChangedJson s.lastChanged)]

variable {s : HotPathSnapshot}

theorem toJson?_eq_stored (h : ∀ e ∈ s.entries, e.path.IsText) :
    JsonFormat.toJson? s = some s.stored := by
  have hentries : s.entries.mapM JsonFormat.toJson? = some (s.entries.map HotPathEntry.stored) :=
    Json.mapM_eq_some_map fun e he => HotPathEntry.toJson?_eq_stored (h e he)
  change (s.entries.mapM JsonFormat.toJson?).bind _ = _
  rw [hentries]
  rfl

theorem lastChanged?_lastChangedJson (m : OrderedMap String DataCategory Utf8.compare) :
    lastChanged? (lastChangedJson m) = some m := by
  have hmember : ∀ e ∈ m.entries,
      memberOf? (.text e.1, .ofString e.2.name) = some (id e) := fun e _ =>
    congrArg (Option.map fun category => (e.1, category)) (DataCategory.ofName?_name e.2)
  have hmembers := Json.mapM_eq_some_map hmember
  rw [lastChangedJson, Json.record, List.map_map, lastChanged?, List.mapM_map]
  refine (congrArg _ hmembers).trans ?_
  rw [List.map_id, Option.map_some, OrderedMap.ofList_entries]

theorem ofJson?_stored (h : ∀ e ∈ s.entries, e.path.IsText) :
    JsonFormat.ofJson? s.stored = some s := by
  have hfields : Json.fields? ["entries", "last_changed"] s.stored =
      some [some (.list HotPathEntry.stored s.entries), some (lastChangedJson s.lastChanged)] :=
    Json.fields?_record (by simp)
  have hentries : Json.list? JsonFormat.ofJson? (.list HotPathEntry.stored s.entries) =
      some s.entries :=
    Json.list?_list fun e he => HotPathEntry.ofJson?_stored (h e he)
  unfold JsonFormat.ofJson? instJsonFormat
  simp only [hfields, Json.required?, hentries, lastChanged?_lastChangedJson, Option.bind_eq_bind,
    Option.bind_some]

theorem plain_stored (s : HotPathSnapshot) : s.stored.Plain := by
  have hentry : ∀ e : HotPathEntry, e.stored.Plain := fun e => .record <| by
    simp only [List.forall_mem_cons]
    exact ⟨.string _, .string _, .string _, nofun⟩
  have hlast : (lastChangedJson s.lastChanged).Plain :=
    .record (List.forall_mem_map.mpr fun _ _ => .string _)
  refine .record ?_
  simp only [List.forall_mem_cons]
  exact ⟨.list fun e _ => hentry e, hlast, nofun⟩

theorem isStored (h : ∀ e ∈ s.entries, e.path.IsText) : JsonFormat.IsStored s :=
  ⟨s.stored, toJson?_eq_stored h, plain_stored s, ofJson?_stored h⟩

/-- The text of a snapshot is read back as the snapshot. -/
theorem exists_pretty? (h : ∀ e ∈ s.entries, e.path.IsText) :
    ∃ text, JsonFormat.pretty? s = some text ∧ JsonFormat.read? text = some s :=
  (isStored h).exists_pretty?

/-- Every entry of a snapshot that has been read has been read itself, and its path with it. -/
theorem isText_of_ofJson? {form : Json} (h : JsonFormat.ofJson? form = some s) :
    ∀ e ∈ s.entries, e.path.IsText := by
  unfold JsonFormat.ofJson? instJsonFormat at h
  dsimp only at h
  split at h
  · simp only [Option.bind_eq_bind, Option.bind_eq_some_iff] at h
    obtain ⟨entries, hentries, _, -, h⟩ := h
    cases h
    obtain ⟨list, hlist⟩ := Json.required?_eq_some hentries
    intro e he
    obtain ⟨item, hitem⟩ := Json.list?_eq_some hlist e he
    exact HotPathEntry.isText_of_ofJson? hitem
  · cases h

end HotPathSnapshot

end IncrementalBackup
