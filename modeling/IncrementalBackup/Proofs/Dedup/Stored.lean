import IncrementalBackup.Dedup.Key
import IncrementalBackup.Dedup.Record
import IncrementalBackup.Proofs.HotPaths.Stored
import IncrementalBackup.Proofs.Time.Moment

/-!
# Stored sets, keys and records

Strategies, configurations and keys are always stored. A set of package files is stored if its paths
are text, and a record if its time is a moment; whatever has been read is so.
-/

namespace IncrementalBackup

open JsonFormat

theorem DedupStrategy.ofName?_name (s : DedupStrategy) : ofName? s.name = some s := by
  cases s <;> rfl

theorem DedupStrategy.isStored (s : DedupStrategy) : IsStored s :=
  ⟨.ofString s.name, rfl, .string _, ofName?_name s⟩

theorem DedupKey.isStored (k : DedupKey) : IsStored k := ⟨.ofString k.text, rfl, .string _, rfl⟩

namespace DedupConfig

def stored (c : DedupConfig) : Json :=
  .record
    [("strategy", .ofString c.strategy.name), ("hash_prefix_bytes", .ofNat c.hashPrefixBytes.toNat),
      ("digest_suffix_len", .ofNat c.digestSuffixLen.toNat), ("store_dir", .ofString c.storeDir)]

theorem isStoredAs_stored (c : DedupConfig) : IsStoredAs c c.stored := by
  refine ⟨rfl, .record ?_, ?_⟩
  · simp only [List.forall_mem_cons]
    exact ⟨.string _, .integer _, .integer _, .string _, nofun⟩
  · have hfields : Json.fields? ["strategy", "hash_prefix_bytes", "digest_suffix_len", "store_dir"]
        c.stored = some [some (.ofString c.strategy.name), some (.ofNat c.hashPrefixBytes.toNat),
          some (.ofNat c.digestSuffixLen.toNat), some (.ofString c.storeDir)] :=
      Json.fields?_record (by simp)
    have hstrategy : JsonFormat.ofJson? (Json.ofString c.strategy.name) = some c.strategy :=
      DedupStrategy.ofName?_name c.strategy
    have hstoreDir : Json.text? (.ofString c.storeDir) = some c.storeDir := rfl
    unfold JsonFormat.ofJson? instJsonFormat
    simp only [hfields, Json.defaulted?, hstrategy, hstoreDir, Json.uint64?_ofNat,
      Option.bind_eq_bind, Option.bind_some]

end DedupConfig

namespace ApkSet

variable {s : ApkSet}

def stored (s : ApkSet) : Json :=
  .record
    [("version_name", .ofOption .ofString s.versionName),
      ("version_code", .integer s.versionCode.toInt),
      ("file_paths", .list (fun p : Path => .ofString p.display) s.filePaths)]

theorem isStored (h : ∀ p ∈ s.filePaths, p.IsText) : IsStored s := by
  refine ⟨s.stored, ?_, .record ?_, ?_⟩
  · change (s.filePaths.mapM JsonFormat.toJson?).bind _ = _
    rw [Path.mapM_toJson? h]
    rfl
  · simp only [List.forall_mem_cons]
    exact ⟨Json.plain_ofOption _, .integer _, .list fun _ _ => .string _, nofun⟩
  · have hfields : Json.fields? ["version_name", "version_code", "file_paths"] s.stored =
        some [some (.ofOption .ofString s.versionName), some (.integer s.versionCode.toInt),
          some (.list (fun p : Path => .ofString p.display) s.filePaths)] :=
      Json.fields?_record (by simp)
    unfold JsonFormat.ofJson? instJsonFormat
    simp only [hfields, Json.defaulted?, Json.required?, Json.optional?_ofOption,
      Json.int64?_integer, Path.list?_ofJson? h, Option.bind_eq_bind, Option.bind_some]

theorem isText_of_ofJson? {form : Json} (h : JsonFormat.ofJson? form = some s) :
    ∀ p ∈ s.filePaths, p.IsText := by
  unfold JsonFormat.ofJson? instJsonFormat at h
  dsimp only at h
  split at h
  · simp only [Option.bind_eq_bind, Option.bind_eq_some_iff] at h
    obtain ⟨_, -, _, -, paths, hpaths, h⟩ := h
    cases h
    obtain ⟨list, hlist⟩ := Json.required?_eq_some hpaths
    intro p hp
    obtain ⟨item, hitem⟩ := Json.list?_eq_some hlist p hp
    exact Path.isText_of_ofJson? hitem
  · cases h

end ApkSet

theorem DateTime.ofJson?_rfc3339 {d : DateTime} (h : d.IsMoment) :
    JsonFormat.ofJson? (Json.ofString d.rfc3339) = some d := by
  have htext : Json.text? (.ofString d.rfc3339) = some d.rfc3339 := rfl
  change (Json.text? (.ofString d.rfc3339)).bind Rfc3339.lax? = some d
  rw [htext, Option.bind_some, Rfc3339.lax?_rfc3339 h]

namespace BackupRecord

def stored (r : BackupRecord) : Json :=
  .record
    [("package_name", .ofString r.packageName), ("backup_id", .ofString r.backupId),
      ("created_at", .ofString r.createdAt.rfc3339),
      ("version_name", .ofOption .ofString r.versionName),
      ("version_code", .integer r.versionCode.toInt),
      ("apk_location", .ofOption .ofString r.apkLocation)]

variable {r : BackupRecord} {records : List BackupRecord}

theorem isStoredAs_stored (h : r.createdAt.IsMoment) : IsStoredAs r r.stored := by
  refine ⟨rfl, .record ?_, ?_⟩
  · simp only [List.forall_mem_cons]
    exact ⟨.string _, .string _, .string _, Json.plain_ofOption _, .integer _,
      Json.plain_ofOption _, nofun⟩
  · have hfields : Json.fields? ["package_name", "backup_id", "created_at", "version_name",
        "version_code", "apk_location"] r.stored =
        some [some (.ofString r.packageName), some (.ofString r.backupId),
          some (.ofString r.createdAt.rfc3339), some (.ofOption .ofString r.versionName),
          some (.integer r.versionCode.toInt), some (.ofOption .ofString r.apkLocation)] :=
      Json.fields?_record (by simp)
    have hpackage : Json.text? (.ofString r.packageName) = some r.packageName := rfl
    have hbackup : Json.text? (.ofString r.backupId) = some r.backupId := rfl
    have hcreated := DateTime.ofJson?_rfc3339 h
    unfold JsonFormat.ofJson? instJsonFormat
    simp only [hfields, Json.defaulted?, Json.required?, hpackage, hbackup, hcreated,
      Json.optional?_ofOption, Json.int64?_integer, Option.bind_eq_bind, Option.bind_some]

theorem isMoment_of_ofJson? {form : Json} (h : JsonFormat.ofJson? form = some r) :
    r.createdAt.IsMoment := by
  unfold JsonFormat.ofJson? instJsonFormat at h
  dsimp only at h
  split at h
  · simp only [Option.bind_eq_bind, Option.bind_eq_some_iff] at h
    obtain ⟨_, -, _, -, createdAt, hcreatedAt, _, -, _, -, _, -, h⟩ := h
    cases h
    obtain ⟨field, hfield⟩ := Json.required?_eq_some hcreatedAt
    obtain ⟨text, -, hread⟩ := Option.bind_eq_some_iff.mp hfield
    exact Rfc3339.isMoment_of_lax? hread
  · cases h

theorem isStored_list (h : ∀ r ∈ records, r.createdAt.IsMoment) : IsStored records := by
  refine ⟨.list stored records, ?_, .list fun r hr => (isStoredAs_stored (h r hr)).plain, ?_⟩
  · have hforms : records.mapM JsonFormat.toJson? = some (records.map stored) :=
      Json.mapM_eq_some_map fun r hr => (isStoredAs_stored (h r hr)).toJson?
    change (records.mapM JsonFormat.toJson?).map Json.array = _
    rw [hforms]
    rfl
  · exact Json.list?_list fun r hr => (isStoredAs_stored (h r hr)).ofJson?

theorem isMoment_of_ofJson?_list {form : Json} (h : JsonFormat.ofJson? form = some records) :
    ∀ r ∈ records, r.createdAt.IsMoment := by
  intro r hr
  obtain ⟨item, hitem⟩ := Json.list?_eq_some h r hr
  exact isMoment_of_ofJson? hitem

end BackupRecord

end IncrementalBackup
