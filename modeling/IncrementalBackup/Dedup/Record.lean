import IncrementalBackup.Json.Format
import IncrementalBackup.Time.Rfc3339

/-!
# Backup records

What is remembered about a stored backup. A record may point at a directory of the store.
-/

namespace IncrementalBackup

structure BackupRecord where
  packageName : String
  backupId : String
  createdAt : DateTime
  versionName : Option String
  versionCode : Int64
  /-- The directory that holds the backup's files, if it is in the store. -/
  apkLocation : Option String
deriving DecidableEq, Repr

instance : JsonFormat DateTime where
  toJson? d := some (.ofString d.rfc3339)
  ofJson? v := (Json.text? v).bind Rfc3339.lax?

namespace BackupRecord

instance : JsonFormat BackupRecord where
  toJson? r := do
    let createdAt ← JsonFormat.toJson? r.createdAt
    some (.record
      [("package_name", .ofString r.packageName), ("backup_id", .ofString r.backupId),
        ("created_at", createdAt), ("version_name", .ofOption .ofString r.versionName),
        ("version_code", .integer r.versionCode.toInt),
        ("apk_location", .ofOption .ofString r.apkLocation)])
  ofJson? v :=
    match Json.fields? ["package_name", "backup_id", "created_at", "version_name", "version_code",
        "apk_location"] v with
    | some [packageName, backupId, createdAt, versionName, versionCode, apkLocation] => do
      some
        { packageName := ← Json.required? Json.text? packageName
          backupId := ← Json.required? Json.text? backupId
          createdAt := ← Json.required? JsonFormat.ofJson? createdAt
          versionName := ← Json.defaulted? none (Json.optional? Json.text?) versionName
          versionCode := ← Json.required? Json.int64? versionCode
          apkLocation := ← Json.defaulted? none (Json.optional? Json.text?) apkLocation }
    | _ => none

instance : JsonFormat (List BackupRecord) where
  toJson? rs := (rs.mapM JsonFormat.toJson?).map .array
  ofJson? := Json.list? JsonFormat.ofJson?

end BackupRecord

def countReferences (records : List BackupRecord) (identifier : String) : Nat :=
  records.countP (fun r => r.apkLocation == some identifier)

end IncrementalBackup
