import IncrementalBackup.HotPaths.Cache
import IncrementalBackup.Path.Stored

/-!
# Snapshots of the hot path cache

A snapshot lists what a cache holds, in order, to be stored. Any list of entries restores to a cache;
of several entries for the same package and category the last one counts.
-/

namespace IncrementalBackup

structure HotPathEntry where
  package : String
  category : DataCategory
  path : Path
deriving DecidableEq, Repr

structure HotPathSnapshot where
  entries : List HotPathEntry
  lastChanged : OrderedMap String DataCategory Utf8.compare
deriving DecidableEq

namespace HotPathCache

def snapshot (c : HotPathCache) : HotPathSnapshot where
  entries := c.paths.entries.map (fun e => ⟨e.1.package, e.1.category, e.2⟩)
  lastChanged := c.lastChanged

def ofSnapshot (s : HotPathSnapshot) : HotPathCache where
  paths := .ofList (s.entries.map (fun e => (⟨e.package, e.category⟩, e.path)))
  lastChanged := s.lastChanged

end HotPathCache

namespace HotPathEntry

instance : JsonFormat HotPathEntry where
  toJson? e := do
    let category ← JsonFormat.toJson? e.category
    let path ← JsonFormat.toJson? e.path
    some (.record [("package", .ofString e.package), ("category", category), ("path", path)])
  ofJson? v :=
    match Json.fields? ["package", "category", "path"] v with
    | some [package, category, path] => do
      some
        { package := ← Json.required? Json.text? package
          category := ← Json.required? JsonFormat.ofJson? category
          path := ← Json.required? JsonFormat.ofJson? path }
    | _ => none

end HotPathEntry

namespace HotPathSnapshot

def lastChangedJson (m : OrderedMap String DataCategory Utf8.compare) : Json :=
  .record (m.entries.map (fun e => (e.1, .ofString e.2.name)))

def memberOf? (m : JsonText × Json) : Option (String × DataCategory) :=
  match m.1 with
  | .text package => (JsonFormat.ofJson? m.2).map (fun category => (package, category))
  | .unpaired _ => none

def lastChanged? : Json → Option (OrderedMap String DataCategory Utf8.compare)
  | .object members => (members.mapM memberOf?).map OrderedMap.ofList
  | _ => none

instance : JsonFormat HotPathSnapshot where
  toJson? s := do
    let entries ← s.entries.mapM JsonFormat.toJson?
    some (.record [("entries", .array entries), ("last_changed", lastChangedJson s.lastChanged)])
  ofJson? v :=
    match Json.fields? ["entries", "last_changed"] v with
    | some [entries, lastChanged] => do
      some
        { entries := ← Json.required? (Json.list? JsonFormat.ofJson?) entries
          lastChanged := ← Json.required? lastChanged? lastChanged }
    | _ => none

end HotPathSnapshot

end IncrementalBackup
