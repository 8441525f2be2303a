import IncrementalBackup.Config.File
import IncrementalBackup.Proofs.Config.Stored
import IncrementalBackup.Proofs.Storage.Writing

/-!
# Saving and loading settings

Settings that have been saved are kept in the data directory that they name: the directory is there,
and the file in it is read back as the settings, whatever links lead to it. Loading raises what is kept
to the current version, and then leaves it as it is.
-/

namespace IncrementalBackup

namespace Disk

theorem files_createDirAll (d : Disk) (p : Path) :
    Files.createDirAll p d = createDirAll p d := rfl

theorem keeps_now (d : Disk) (now : Instant) : d.Keeps { d with now := now } :=
  ⟨rfl, fun _ _ h => h⟩

end Disk

namespace Settings

/-- What becomes of settings that have been read. -/
def raise (s : Settings) (d : Disk) : Except ConfigError Settings × Disk :=
  match s.migrate with
  | .error e => (.error e, d)
  | .ok raised =>
    if s.needsMigration then
      match raised.save d with
      | (.error e, d) => (.error e, d)
      | (.ok (), d) => (.ok raised, d)
    else (.ok s, d)

/-- The data directory is there, and its settings file holds the settings. -/
structure KeptAt (s : Settings) (place : DiskPlace) (d : Disk) : Prop where
  directory : s.dataDir.isEmpty = false → d.isDirectory s.dataDir = true
  file : d.FileAt s.filePath place
  text : ∃ text, d.content? place = some (.file (Utf8.encode text)) ∧
    JsonFormat.read? text = some s

variable {s s' : Settings} {d d' made : Disk} {place : DiskPlace} {p : Path} {text : String}

/-! ## Saving -/

theorem save_of_writeFile (hmade : Disk.createDirAll s.dataDir d = (.ok (), made))
    (hpretty : JsonFormat.pretty? s = some text)
    (hwrite : Disk.writeFile s.filePath (Utf8.encode text) made = (.ok (), d')) :
    s.save d = (.ok (), d') := by
  rw [save, Disk.files_createDirAll, hmade]
  dsimp only
  rw [hpretty]
  dsimp only
  rw [Disk.files_writeText, hwrite]
  rfl

theorem writeFile_of_save (h : s.save d = (.ok (), d')) :
    ∃ made text, Disk.createDirAll s.dataDir d = (.ok (), made) ∧
      JsonFormat.pretty? s = some text ∧
        Disk.writeFile s.filePath (Utf8.encode text) made = (.ok (), d') := by
  unfold save at h
  split at h
  · cases h
  · rename_i made hmade
    split at h
    · cases h
    · rename_i text hpretty
      rw [Disk.files_writeText] at h
      cases hwrite : Disk.writeFile s.filePath (Utf8.encode text) made with
      | mk result written =>
        rw [hwrite] at h
        cases result with
        | error e => cases h
        | ok u =>
          cases h
          exact ⟨made, text, hmade, hpretty, hwrite⟩

/-- Saved settings are kept, and nothing else has changed. -/
theorem keptAt_of_save (htext : s.dataDir.IsText) (h : s.save d = (.ok (), d')) :
    ∃ place, s.KeptAt place d' ∧ d.ChangesOnly place d' := by
  obtain ⟨made, text, hmade, hpretty, hwrite⟩ := writeFile_of_save h
  obtain ⟨text', hpretty', hread⟩ := (isStored htext).exists_pretty?
  obtain rfl : text = text' := Option.some.inj (hpretty.symm.trans hpretty')
  obtain ⟨place, hwrites, hfile⟩ := Disk.writeFile_eq_ok hwrite
  have hdirectory : s.dataDir.isEmpty = false → d'.isDirectory s.dataDir = true :=
    fun hp => hwrites.grows.isDirectory (Disk.isDirectory_of_createDirAll hmade hp)
  exact ⟨place, ⟨hdirectory, hfile, text, hwrites.written, hread⟩,
    (Disk.keeps_createDirAll hmade).changesOnly hwrites⟩

theorem KeptAt.of_keeps (h : s.KeptAt place d) (hkeeps : d.Keeps d') : s.KeptAt place d' := by
  obtain ⟨text, hcontent, hread⟩ := h.text
  exact ⟨fun hp => hkeeps.grows.isDirectory (h.directory hp), h.file.of_grows hkeeps.grows,
    text, hkeeps.content place _ hcontent, hread⟩

/-- Settings with the data directory of those that are kept can be saved in their place. -/
theorem KeptAt.save (h : s.KeptAt place d) (htext : s.dataDir.IsText)
    (hdataDir : s'.dataDir = s.dataDir) :
    ∃ d', s'.save d = (.ok (), d') ∧ s'.KeptAt place d' := by
  have htext' : s'.dataDir.IsText := hdataDir ▸ htext
  obtain ⟨text, hpretty, hread⟩ := (isStored htext').exists_pretty?
  have hpath : s'.filePath = s.filePath := by rw [filePath, filePath, hdataDir]
  obtain ⟨d', hwrite, hwrites⟩ := h.file.writeFile (Utf8.encode text)
  refine ⟨d', save_of_writeFile ?_ hpretty (hpath ▸ hwrite), fun hp => ?_, ?_, text, hwrites.written,
    hread⟩
  · rw [hdataDir]
    exact Disk.createDirAll_of_isDirectory h.directory
  · rw [hdataDir] at hp ⊢
    exact hwrites.grows.isDirectory (h.directory hp)
  · rw [hpath]
    exact h.file.of_grows hwrites.grows

/-! ## Reading -/

theorem parse_eq_ok : parse text = .ok s ↔ JsonFormat.read? text = some s := by
  rw [parse]
  cases (JsonFormat.read? text : Option Settings) with
  | none => simp
  | some found => simp

theorem read_eq (hread : d.readText p = .ok text) (hparse : JsonFormat.read? text = some s) :
    read p d = s.raise d := by
  rw [read, Disk.files_readText, hread]
  dsimp only
  rw [parse_eq_ok.mpr hparse, raise]
  dsimp only
  cases s.migrate with
  | error e => rfl
  | ok raised =>
    dsimp only
    cases raised.save d with
    | mk result d' => cases result <;> rfl

theorem KeptAt.load_eq (h : s.KeptAt place d) : load s.dataDir d = s.raise d := by
  obtain ⟨text, hcontent, hread⟩ := h.text
  rw [load]
  refine (if_pos (Disk.contains_of_place? h.file.found)).trans ?_
  exact read_eq (h.file.readText hcontent) hread

theorem raise_newer (h : targetVersion < s.version) (d : Disk) :
    s.raise d = (.error (.unknownVersion s.version), d) := by
  rw [raise, migrate, if_pos h]

theorem raise_current (h : s.version = targetVersion) (d : Disk) : s.raise d = (.ok s, d) := by
  have hnewer : ¬ targetVersion < s.version := h ▸ UInt32.lt_irrefl targetVersion
  have holder : s.needsMigration = false := decide_eq_false (h ▸ UInt32.lt_irrefl targetVersion)
  rw [raise, migrate, if_neg hnewer, holder]
  rfl

theorem raise_older (h : s.version < targetVersion) (d : Disk) :
    s.raise d =
      match ({ s with version := targetVersion } : Settings).save d with
      | (.error e, d) => (.error e, d)
      | (.ok (), d) => (.ok { s with version := targetVersion }, d) := by
  have hnewer : ¬ targetVersion < s.version := UInt32.lt_asymm h
  have holder : s.needsMigration = true := decide_eq_true h
  rw [raise, migrate, if_neg hnewer, holder]
  rfl

/-! ## Loading what has been saved -/

theorem KeptAt.load_of_le (h : s.KeptAt place d) (htext : s.dataDir.IsText)
    (hversion : s.version ≤ targetVersion) :
    ∃ d', load s.dataDir d = (.ok { s with version := targetVersion }, d') ∧
      ({ s with version := targetVersion } : Settings).KeptAt place d' := by
  rcases UInt32.lt_or_eq_of_le hversion with holder | hcurrent
  · have hdataDir : ({ s with version := targetVersion } : Settings).dataDir = s.dataDir := rfl
    obtain ⟨d', hsave, hkept⟩ := h.save htext hdataDir
    exact ⟨d', by rw [h.load_eq, raise_older holder, hsave], hkept⟩
  · have hs : { s with version := targetVersion } = s := by rw [← hcurrent]
    rw [hs]
    exact ⟨d, by rw [h.load_eq, raise_current hcurrent], h⟩

/-- Settings that have been saved are loaded, raised to the current version, and from then on loaded
without a change of the disk; settings of a version that is not known yet are refused. -/
theorem load_of_save {c : Settings} (htext : c.dataDir.IsText)
    (hmade : Files.createDirAll c.dataDir d = (.ok (), made))
    (hwrite : ∀ text, (Files.writeText c.filePath text made).1 = .ok ()) :
    ∃ text saved, JsonFormat.pretty? c = some text ∧ c.save d = (.ok (), saved) ∧
      Files.readText saved c.filePath = .ok text ∧
        (c.version ≤ targetVersion → ∀ now, ∃ loaded,
          load c.dataDir { saved with now := now } =
              (.ok { c with version := targetVersion }, loaded) ∧
            ∀ later, load c.dataDir { loaded with now := later } =
              (.ok { c with version := targetVersion }, { loaded with now := later })) ∧
          (targetVersion < c.version → ∀ now,
            load c.dataDir { saved with now := now } =
              (.error (.unknownVersion c.version), { saved with now := now })) := by
  obtain ⟨text, hpretty, -⟩ := (isStored htext).exists_pretty?
  obtain ⟨saved, hsaved⟩ : ∃ saved,
      Disk.writeFile c.filePath (Utf8.encode text) made = (.ok (), saved) :=
    ⟨_, Prod.ext (hwrite text) rfl⟩
  have hsave := save_of_writeFile hmade hpretty hsaved
  obtain ⟨place, hkept, -⟩ := keptAt_of_save htext hsave
  refine ⟨text, saved, hpretty, hsave, ?_, fun hversion now => ?_, fun hversion now => ?_⟩
  · obtain ⟨written, hwrites, hfile⟩ := Disk.writeFile_eq_ok hsaved
    exact hfile.readText hwrites.written
  · have hnow := hkept.of_keeps (saved.keeps_now now)
    obtain ⟨loaded, hload, hagain⟩ := hnow.load_of_le htext hversion
    refine ⟨loaded, hload, fun later => ?_⟩
    have hlater := hagain.of_keeps (loaded.keeps_now later)
    exact hlater.load_eq.trans (raise_current rfl _)
  · have hnow := hkept.of_keeps (saved.keeps_now now)
    exact hnow.load_eq.trans (raise_newer hversion _)

/-- A directory, and a link to it beside it. -/
def linkedDisk : Disk :=
  ((Disk.empty [] ⟨0⟩).link [] (Utf8.encode "srv") .directory).link [] (Utf8.encode "home")
    (.symlink (Utf8.encode "srv"))

/-- The directory of the settings has been made, in the one that the link leads to. -/
def madeDisk : Disk := linkedDisk.link [Utf8.encode "srv"] (Utf8.encode "apps") .directory

def firstVersion : Settings := { default (.ofString "/home/apps/") with version := 1 }

theorem createDirAll_linkedDisk :
    Files.createDirAll firstVersion.dataDir linkedDisk = (.ok (), madeDisk) := by
  have hlineage : Disk.lineage firstVersion.dataDir.bytes.length firstVersion.dataDir =
      [.ofString "/home/apps/", .ofString "/home", .ofString "/"] := by decide
  rw [Disk.files_createDirAll, Disk.createDirAll, if_neg (by decide), hlineage]
  cbv

theorem load_of_save_linkedDisk :
    ∃ text saved, JsonFormat.pretty? firstVersion = some text ∧
      firstVersion.save linkedDisk = (.ok (), saved) ∧
        Files.readText saved firstVersion.filePath = .ok text ∧
          ∃ loaded, load (.ofString "/home/apps/") { saved with now := ⟨5⟩ } =
              (.ok (default (.ofString "/home/apps/")), loaded) ∧
            load (.ofString "/home/apps/") { loaded with now := ⟨9⟩ } =
              (.ok (default (.ofString "/home/apps/")), { loaded with now := ⟨9⟩ }) := by
  have hopen : (Disk.openNew firstVersion.filePath madeDisk).isOk = true := by cbv
  obtain ⟨text, saved, hpretty, hsave, hread, hload, -⟩ :=
    load_of_save (Path.isText_ofString _) createDirAll_linkedDisk fun text => by
      obtain ⟨written, hwrite⟩ := Disk.exists_writeFile hopen (Utf8.encode text)
      rw [Disk.files_writeText, hwrite]
  obtain ⟨loaded, hfirst, hagain⟩ := hload (by decide) ⟨5⟩
  exact ⟨text, saved, hpretty, hsave, hread, loaded, hfirst, hagain ⟨9⟩⟩

end Settings

end IncrementalBackup
