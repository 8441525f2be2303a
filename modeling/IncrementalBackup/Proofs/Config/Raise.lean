import IncrementalBackup.Proofs.Config.Load

/-!
# Raising settings where they say

Settings of an older version are saved in the data directory that they name, wherever they have been
read. So the file that was read is raised exactly if its path leads to the settings file of that
directory; if it does not, it stays as it is, and what that directory held is replaced.
-/

namespace IncrementalBackup.Settings

/-- The file under a path is read as settings. -/
def HeldAt (s : Settings) (p : Path) (d : Disk) : Prop :=
  ∃ text, Files.readText d p = .ok text ∧ parse text = .ok s

/-- The file under a path holds the settings now and is not raised again; every other file that was
there holds what it held. -/
structure Rewrites (p : Path) (s : Settings) (d d' : Disk) : Prop where
  held : s.HeldAt p d'
  again : read p d' = (.ok s, d')
  others : ∀ place data, d'.place? p ≠ some place → d.content? place = some (.file data) →
    d'.content? place = some (.file data)

variable {s c : Settings} {d d' made : Disk} {p q : Path} {place : DiskPlace} {text : String}

/-- Settings of an older version that have been read are kept in the directory that they name. -/
theorem keptAt_of_read (hread : d.readText p = .ok text) (hparse : parse text = .ok s)
    (holder : s.version < targetVersion) (h : read p d = (.ok c, d')) :
    c = { s with version := targetVersion } ∧
      ∃ place, c.KeptAt place d' ∧ d.ChangesOnly place d' := by
  have hform := parse_eq_ok.mp hparse
  have hdataDir : s.dataDir.IsText := isText_of_read? hform
  have htext : ({ s with version := targetVersion } : Settings).dataDir.IsText := hdataDir
  rw [read_eq hread hform, raise_older holder] at h
  split at h
  · cases h
  · rename_i saved hsave
    cases h
    exact ⟨rfl, keptAt_of_save htext hsave⟩

theorem exists_read_older (hread : d.readText p = .ok text) (hparse : parse text = .ok s)
    (holder : s.version < targetVersion) (hmade : Disk.createDirAll s.dataDir d = (.ok (), made))
    (hopen : (Disk.openNew s.filePath made).isOk = true) :
    ∃ d', read p d = (.ok { s with version := targetVersion }, d') := by
  have hform := parse_eq_ok.mp hparse
  have hdataDir : s.dataDir.IsText := isText_of_read? hform
  have htext : ({ s with version := targetVersion } : Settings).dataDir.IsText := hdataDir
  obtain ⟨written, hpretty, -⟩ := (isStored htext).exists_pretty?
  obtain ⟨d', hwrite⟩ := Disk.exists_writeFile hopen (Utf8.encode written)
  have hsave : ({ s with version := targetVersion } : Settings).save d = (.ok (), d') :=
    save_of_writeFile hmade hpretty hwrite
  exact ⟨d', by rw [read_eq hread hform, raise_older holder, hsave]⟩

/-- Two paths that lead to one place are read as the same file. -/
theorem HeldAt.of_place? (h : s.HeldAt p d) (hplace : d.place? q = d.place? p) : s.HeldAt q d := by
  obtain ⟨text, hread, hparse⟩ := h
  obtain ⟨data, hdata, hdecode⟩ := Disk.readText_eq_ok.mp hread
  obtain ⟨place, hp, hcontent⟩ := Disk.readFile_eq_ok.mp hdata
  have hq := Disk.readFile_eq_ok.mpr ⟨place, hplace.trans hp, hcontent⟩
  exact ⟨text, Disk.readText_eq_ok.mpr ⟨data, hq, hdecode⟩, hparse⟩

theorem HeldAt.read_current (h : s.HeldAt p d) (hversion : s.version = targetVersion) :
    read p d = (.ok s, d) := by
  obtain ⟨text, hread, hparse⟩ := h
  rw [read_eq hread (parse_eq_ok.mp hparse), raise_current hversion]

theorem KeptAt.heldAt (h : s.KeptAt place d) : s.HeldAt s.filePath d := by
  obtain ⟨text, hcontent, hread⟩ := h.text
  exact ⟨text, h.file.readText hcontent, parse_eq_ok.mpr hread⟩

/-- Reading settings of an older version rewrites the file of the data directory that they name. The
file that was read is rewritten exactly if it is that file, and else left as it is. -/
theorem read_older_rewrites_iff (hread : Files.readText d p = .ok text)
    (hparse : parse text = .ok s) (holder : s.version < targetVersion)
    (h : read p d = (.ok c, d')) :
    c = { s with version := targetVersion } ∧ Rewrites c.filePath c d d' ∧
      (Rewrites p c d d' ↔ d'.place? p = d'.place? c.filePath) ∧
        (d'.place? p ≠ d'.place? c.filePath → Files.readText d' p = .ok text) := by
  obtain ⟨hraised, kept, hkept, honly⟩ := keptAt_of_read hread hparse holder h
  have hversion : c.version = targetVersion := by rw [hraised]
  have hplace : d'.place? c.filePath = some kept := hkept.file.found
  have hfiles : ∀ place data, some kept ≠ some place → d.content? place = some (.file data) →
      d'.content? place = some (.file data) :=
    fun place data hne => honly.others place _ fun heq => hne (congrArg some heq.symm)
  have hleft : d'.place? p ≠ d'.place? c.filePath → Files.readText d' p = .ok text :=
    fun hne => honly.readText hread (hplace ▸ hne)
  refine ⟨hraised, ⟨hkept.heldAt, hkept.heldAt.read_current hversion, hplace ▸ hfiles⟩,
    ⟨fun hrewrites => ?_, fun heq => ?_⟩, hleft⟩
  · by_contra hne
    obtain ⟨text', hread', hparse'⟩ := hrewrites.held
    obtain rfl : text = text' := Except.ok.inj ((hleft hne).symm.trans hread')
    obtain rfl : s = c := Except.ok.inj (hparse.symm.trans hparse')
    exact absurd hversion (UInt32.ne_of_lt holder)
  · have hheld := hkept.heldAt.of_place? heq
    exact ⟨hheld, hheld.read_current hversion, (heq.trans hplace) ▸ hfiles⟩

def oldPath : Path := .ofString "/old/appvault.json"

def oldPlace : DiskPlace := [Utf8.encode "old", Utf8.encode "appvault.json"]

def newPlace : DiskPlace := [Utf8.encode "new", Utf8.encode "appvault.json"]

/-- A settings file in one directory, and another file where those of a second one would be. -/
def oldDisk (data : List UInt8) : Disk :=
  ((((Disk.empty [] ⟨0⟩).link [] (Utf8.encode "old") .directory).link [Utf8.encode "old"]
    (Utf8.encode "appvault.json") (.file data)).link [] (Utf8.encode "new") .directory).link
      [Utf8.encode "new"] (Utf8.encode "appvault.json") (.file [111])

theorem place?_oldPath (data : List UInt8) : (oldDisk data).place? oldPath = some oldPlace := by cbv

theorem readText_oldPath (text : String) :
    (oldDisk (Utf8.encode text)).readText oldPath = .ok text := by
  have hcontent : ∀ data, (oldDisk data).content? oldPlace = some (.file data) := by
    intro data
    cbv
  have hfile := Disk.readFile_eq_ok.mpr ⟨oldPlace, place?_oldPath _, hcontent (Utf8.encode text)⟩
  exact Disk.readText_eq_ok.mpr ⟨_, hfile, Utf8.decode?_encode text⟩

def stayedText : String := "[0, \"/new/../old/.\", \"warn\"]"

def stayed : Settings :=
  { default (.ofString "/new/../old/.") with version := 0, logLevel := "warn" }

theorem read_older_rewrites_oldDisk :
    ∃ d', read oldPath (oldDisk (Utf8.encode stayedText)) = (.ok { stayed with version := 2 }, d') ∧
      Rewrites oldPath { stayed with version := 2 } (oldDisk (Utf8.encode stayedText)) d' := by
  have hparse : parse stayedText = .ok stayed := by decide +kernel
  have hdirectory : ∀ data, (oldDisk data).isDirectory stayed.dataDir = true := by
    intro data
    cbv
  have hopen : ∀ data, (Disk.openNew stayed.filePath (oldDisk data)).isOk = true := by
    intro data
    cbv
  have hnamed : ∀ data, (oldDisk data).place? stayed.filePath = some oldPlace := by
    intro data
    cbv
  have hread := readText_oldPath stayedText
  obtain ⟨d', h⟩ := exists_read_older hread hparse (by decide)
    (Disk.createDirAll_of_isDirectory fun _ => hdirectory _) (hopen _)
  obtain ⟨-, -, hiff, -⟩ := read_older_rewrites_iff hread hparse (by decide) h
  obtain ⟨-, place, -, honly⟩ := keptAt_of_read hread hparse (by decide) h
  exact ⟨d', h, hiff.mpr
    ((honly.grows.place? (place?_oldPath _)).trans (honly.grows.place? (hnamed _)).symm)⟩

def movedText : String := "[1, \"/new\", \"warn\"]"

def moved : Settings := { default (.ofString "/new") with version := 1, logLevel := "warn" }

/-- The file that was read is left as it was, and the other one is replaced. -/
theorem read_older_replaces_other_file :
    Files.readText (oldDisk (Utf8.encode movedText)) oldPath = .ok movedText ∧
      parse movedText = .ok moved ∧ moved.version < targetVersion ∧
        ∃ d', read oldPath (oldDisk (Utf8.encode movedText)) =
            (.ok { moved with version := 2 }, d') ∧
          Files.readText d' oldPath = .ok movedText ∧ d'.content? newPlace ≠ some (.file [111]) ∧
            ¬ Rewrites oldPath { moved with version := 2 } (oldDisk (Utf8.encode movedText)) d' := by
  have hparse : parse movedText = .ok moved := by decide +kernel
  have hdirectory : ∀ data, (oldDisk data).isDirectory moved.dataDir = true := by
    intro data
    cbv
  have hopen : ∀ data, (Disk.openNew moved.filePath (oldDisk data)).isOk = true := by
    intro data
    cbv
  have hnamed : ∀ data, (oldDisk data).place? moved.filePath = some newPlace := by
    intro data
    cbv
  have hread := readText_oldPath movedText
  obtain ⟨d', h⟩ := exists_read_older hread hparse (by decide)
    (Disk.createDirAll_of_isDirectory fun _ => hdirectory _) (hopen _)
  obtain ⟨-, place, hkept, honly⟩ := keptAt_of_read hread hparse (by decide) h
  obtain rfl : place = newPlace :=
    Option.some.inj (hkept.file.found.symm.trans (honly.grows.place? (hnamed _)))
  have hleft : Files.readText d' oldPath = .ok movedText :=
    honly.readText hread (by rw [honly.grows.place? (place?_oldPath _)]; decide)
  refine ⟨hread, hparse, by decide, d', h, hleft, fun hother => ?_, fun hrewrites => ?_⟩
  · obtain ⟨text, hcontent, htext⟩ := hkept.text
    have hbytes : [111] = Utf8.encode text :=
      DiskContent.file.inj (Option.some.inj (hother.symm.trans hcontent))
    have hdecode := Utf8.decode?_encode text
    have hletter : Utf8.decode? [111] = some "o" := by decide
    have hnone : (JsonFormat.read? "o" : Option Settings) = none := by decide +kernel
    rw [← hbytes, hletter] at hdecode
    cases hdecode
    rw [hnone] at htext
    cases htext
  · obtain ⟨text, hread', hparse'⟩ := hrewrites.held
    obtain rfl : movedText = text := Except.ok.inj (hleft.symm.trans hread')
    rw [hparse] at hparse'
    exact absurd (Except.ok.inj hparse') (by decide)

end IncrementalBackup.Settings
