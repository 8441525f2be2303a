import IncrementalBackup.Config.Settings
import IncrementalBackup.Proofs.Dedup.Stored

/-!
# Stored settings

Options and categories are always stored, settings if their directory is text. So every kind of value
that the program keeps round-trips: whatever text it was read from, what is written for it is read
back as the same value.
-/

namespace IncrementalBackup

open JsonFormat

theorem DataCategory.isStored (c : DataCategory) : IsStored c :=
  ⟨.ofString c.name, rfl, .string _, ofName?_name c⟩

namespace ScanOptions

def stored (o : ScanOptions) : Json :=
  .record [("max_depth", .ofNat o.maxDepth.toNat), ("use_hot_path", .boolean o.useHotPath)]

theorem isStoredAs_stored (o : ScanOptions) : IsStoredAs o o.stored := by
  refine ⟨rfl, .record ?_, ?_⟩
  · simp only [List.forall_mem_cons]
    exact ⟨.integer _, .boolean _, nofun⟩
  · have hfields : Json.fields? ["max_depth", "use_hot_path"] o.stored =
        some [some (.ofNat o.maxDepth.toNat), some (.boolean o.useHotPath)] :=
      Json.fields?_record (by simp)
    have hhotPath : Json.boolean? (.boolean o.useHotPath) = some o.useHotPath := rfl
    unfold JsonFormat.ofJson? instJsonFormat
    simp only [hfields, Json.defaulted?, Json.uint32?_ofNat, hhotPath, Option.bind_eq_bind,
      Option.bind_some]

end ScanOptions

namespace Settings

variable {s : Settings}

def stored (s : Settings) : Json :=
  .record
    [("version", .ofNat s.version.toNat), ("data_dir", .ofString s.dataDir.display),
      ("log_level", .ofString s.logLevel), ("scan", s.scan.stored), ("dedup", s.dedup.stored)]

theorem isStored (h : s.dataDir.IsText) : IsStored s := by
  refine ⟨s.stored, ?_, .record ?_, ?_⟩
  · change (JsonFormat.toJson? s.dataDir).bind _ = _
    rw [h.toJson?]
    rfl
  · simp only [List.forall_mem_cons]
    exact ⟨.integer _, .string _, .string _, s.scan.isStoredAs_stored.plain,
      s.dedup.isStoredAs_stored.plain, nofun⟩
  · have hfields : Json.fields? ["version", "data_dir", "log_level", "scan", "dedup"] s.stored =
        some [some (.ofNat s.version.toNat), some (.ofString s.dataDir.display),
          some (.ofString s.logLevel), some s.scan.stored, some s.dedup.stored] :=
      Json.fields?_record (by simp)
    have hlogLevel : Json.text? (.ofString s.logLevel) = some s.logLevel := rfl
    unfold JsonFormat.ofJson? instJsonFormat
    simp only [hfields, Json.required?, Json.defaulted?, Json.uint32?_ofNat, h.ofJson?, hlogLevel,
      s.scan.isStoredAs_stored.ofJson?, s.dedup.isStoredAs_stored.ofJson?, Option.bind_eq_bind,
      Option.bind_some]

theorem isText_of_ofJson? {form : Json} (h : JsonFormat.ofJson? form = some s) :
    s.dataDir.IsText := by
  unfold JsonFormat.ofJson? instJsonFormat at h
  dsimp only at h
  split at h
  · simp only [Option.bind_eq_bind, Option.bind_eq_some_iff] at h
    obtain ⟨_, -, dataDir, hdataDir, _, -, _, -, _, -, h⟩ := h
    cases h
    obtain ⟨field, hfield⟩ := Json.required?_eq_some hdataDir
    exact Path.isText_of_ofJson? hfield
  · cases h

theorem isText_of_read? {text : String} (h : JsonFormat.read? text = some s) :
    s.dataDir.IsText := by
  obtain ⟨form, -, hform⟩ := Option.bind_eq_some_iff.mp h
  exact isText_of_ofJson? hform

end Settings

/-- Whatever is read from a text, of any kind that is kept, is written again and read back. -/
theorem stored_roundTrips :
    RoundTrips ScanOptions ∧ RoundTrips DedupConfig ∧ RoundTrips ApkSet ∧ RoundTrips DedupStrategy ∧
      RoundTrips DataCategory ∧ RoundTrips DedupKey ∧ RoundTrips (List BackupRecord) ∧
      RoundTrips HotPathSnapshot ∧ RoundTrips Settings := by
  refine ⟨?options, ?config, ?set, ?strategy, ?category, ?key, ?records, ?snapshot, ?settings⟩
  case options => exact .of_isStored fun _ o _ => ⟨o.stored, o.isStoredAs_stored⟩
  case config => exact .of_isStored fun _ c _ => ⟨c.stored, c.isStoredAs_stored⟩
  case set => exact .of_isStored fun _ _ h => ApkSet.isStored (ApkSet.isText_of_ofJson? h)
  case strategy => exact .of_isStored fun _ s _ => s.isStored
  case category => exact .of_isStored fun _ c _ => c.isStored
  case key => exact .of_isStored fun _ k _ => k.isStored
  case records =>
    exact .of_isStored fun _ _ h =>
      BackupRecord.isStored_list (BackupRecord.isMoment_of_ofJson?_list h)
  case snapshot =>
    exact .of_isStored fun _ _ h => HotPathSnapshot.isStored (HotPathSnapshot.isText_of_ofJson? h)
  case settings => exact .of_isStored fun _ _ h => Settings.isStored (Settings.isText_of_ofJson? h)

/-- A record whose time was a leap second with an offset and more digits than are kept. -/
def leapSecondRecord : BackupRecord where
  packageName := "app"
  backupId := "b1"
  createdAt := ⟨1483228799, 1123456789⟩
  versionName := none
  versionCode := 7
  apkLocation := none

def leapSecondText : String :=
  "[[\"app\", \"b1\", \"2016-12-31T15:59:60.123456789123-08:00\", null, 7]]"

/-- A snapshot with two paths for one package and category, one of them with escapes. -/
def doubledSnapshot : HotPathSnapshot where
  entries := [⟨"p", .obb, .ofString "a\"\\é"⟩, ⟨"p", .obb, ⟨[]⟩⟩]
  lastChanged := .ofList [("p", .obb)]

def doubledText : String :=
  "\x7b\"last_changed\": \x7b\"p\": \"media\", \"p\": \x7b\"obb\": null\x7d\x7d, \"entries\": " ++
    "[[\"p\", \"obb\", \"a\\\"\\\\\\u00e9\"], " ++
      "\x7b\"path\": \"\", \"category\": \"obb\", \"package\": \"p\"\x7d]\x7d"

/-- Settings of an old version, without all that may be left out. -/
def bareSettings : Settings := ⟨1, .ofString "/d😀", "warn", .default, .default⟩

def bareText : String :=
  "\x7b\"data_dir\": \"/d\\ud83d\\ude00\", \"log_level\": \"warn\", \"version\": 1, \"theme\": 3\x7d"

theorem stored_roundTrips_odd_texts :
    (read? leapSecondText = some [leapSecondRecord] ∧
      (∃ written, compact? [leapSecondRecord] = some written ∧
        read? written = some [leapSecondRecord]) ∧
      ∃ written, pretty? [leapSecondRecord] = some written ∧
        read? written = some [leapSecondRecord]) ∧
    (read? doubledText = some doubledSnapshot ∧
      (∃ written, compact? doubledSnapshot = some written ∧
        read? written = some doubledSnapshot) ∧
      ∃ written, pretty? doubledSnapshot = some written ∧
        read? written = some doubledSnapshot) ∧
    (read? bareText = some bareSettings ∧
      (∃ written, compact? bareSettings = some written ∧ read? written = some bareSettings) ∧
      ∃ written, pretty? bareSettings = some written ∧ read? written = some bareSettings) := by
  have hrecord : read? leapSecondText = some [leapSecondRecord] := by decide +kernel
  have hsnapshot : read? doubledText = some doubledSnapshot := by decide +kernel
  have hsettings : read? bareText = some bareSettings := by decide +kernel
  obtain ⟨-, -, -, -, -, -, hrecords, hsnapshots, hall⟩ := stored_roundTrips
  exact ⟨⟨hrecord, hrecords leapSecondText _ hrecord⟩,
    ⟨hsnapshot, hsnapshots doubledText _ hsnapshot⟩, hsettings, hall bareText _ hsettings⟩

end IncrementalBackup
