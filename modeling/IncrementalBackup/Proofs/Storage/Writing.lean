import IncrementalBackup.Proofs.Storage.Directories
import IncrementalBackup.Storage.Files

/-!
# Writing a file of a disk

A file is written at the place that its path leads to, through whatever links, and nothing else changes
its content. It is then found under that path, and stays readable and writable there as the disk grows.
-/

namespace IncrementalBackup.Disk

/-- A path that leads to a file, by way of the directories and links that writing to it follows. -/
structure FileAt (d : Disk) (p : Path) (place : DiskPlace) : Prop where
  found : d.place? p = some place
  written : ∃ above name, d.writePlace maxLinks d.current p.bytes = .ok (above, name) ∧
    place = above ++ [name]
  file : ∃ data, d.content? place = some (.file data)

/-- The file at a place is made, or it is another one; nothing else changes its content. -/
structure Writes (place : DiskPlace) (data : List UInt8) (d d' : Disk) : Prop where
  current : d'.current = d.current
  written : d'.content? place = some (.file data)
  others : ∀ l, l ≠ place → d'.content? l = d.content? l
  free : ∀ content, d.content? place = some content → ∃ old, content = .file old

/-- Nothing that is there changes its content, but for the data of the file at a place. -/
structure ChangesOnly (place : DiskPlace) (d d' : Disk) : Prop where
  grows : Grows d d'
  others : ∀ l content, l ≠ place → d.content? l = some content → d'.content? l = some content

variable {d d' : Disk} {here above place : DiskPlace} {name bytes data : List UInt8}
  {node : DiskNode} {p : Path} {links : Nat}

theorem Writes.grows (h : Writes place data d d') : Grows d d' := by
  refine ⟨h.current, fun l content hl => ?_⟩
  by_cases hplace : l = place
  · obtain ⟨old, hold⟩ := h.free content (hplace ▸ hl)
    exact ⟨.file data, hplace ▸ h.written, by rw [hold]; rfl⟩
  · exact ⟨content, (h.others l hplace).trans hl, rfl⟩

theorem Keeps.changesOnly {made : Disk} (h : Keeps d made) (h' : Writes place data made d') :
    ChangesOnly place d d' :=
  ⟨h.grows.trans h'.grows, fun l content hl hcontent =>
    (h'.others l hl).trans (h.content l content hcontent)⟩

/-- A file elsewhere is read as before. -/
theorem ChangesOnly.readFile (h : ChangesOnly place d d') (hread : d.readFile p = .ok data)
    (hne : d'.place? p ≠ some place) : d'.readFile p = .ok data := by
  obtain ⟨l, hp, hcontent⟩ := readFile_eq_ok.mp hread
  have hp' := h.grows.place? hp
  have hl : l ≠ place := fun heq => hne (heq ▸ hp')
  exact readFile_eq_ok.mpr ⟨l, hp', h.others l _ hl hcontent⟩

/-! ## The place of a file -/

/-- What the last step of a path to be written is: a link that is followed, or the file. -/
theorem writePlace_eq_ok (h : d.writePlace links here bytes = .ok (above, name)) :
    (steps bytes).2 = false ∧
      ∃ up last, d.aboveFrom here bytes = .ok (up, .name last) ∧
        ((∃ target fewer, d.content? (up ++ [last]) = some (.symlink target) ∧
            links = fewer + 1 ∧ d.writePlace fewer up target = .ok (above, name)) ∨
          (∀ target, d.content? (up ++ [last]) ≠ some (.symlink target)) ∧
            above = up ∧ name = last) := by
  unfold Disk.writePlace at h
  split at h
  · cases h
  · rename_i up last hfrom
    split at h
    · cases h
    · rename_i hends
      refine ⟨by simpa [steps] using hends, up, last, hfrom, ?_⟩
      split at h
      · rename_i target htarget
        split at h
        · cases h
        · exact .inl ⟨target, _, htarget, rfl, h⟩
      · rename_i hlink
        cases h
        exact .inr ⟨hlink, rfl, rfl⟩
  · cases h

theorem writePlace_of_symlink {up : DiskPlace} {last target : List UInt8}
    (hends : (steps bytes).2 = false) (hfrom : d.aboveFrom here bytes = .ok (up, .name last))
    (htarget : d.content? (up ++ [last]) = some (.symlink target)) (links : Nat) :
    d.writePlace (links + 1) here bytes = d.writePlace links up target := by
  have hseparator : ¬ bytes.getLast? = some Path.separator := by simpa [steps] using hends
  rw [Disk.writePlace, hfrom]
  simp only [hseparator, if_false, htarget]

theorem writePlace_of_not_symlink {up : DiskPlace} {last : List UInt8}
    (hends : (steps bytes).2 = false) (hfrom : d.aboveFrom here bytes = .ok (up, .name last))
    (hlink : ∀ target, d.content? (up ++ [last]) ≠ some (.symlink target)) (links : Nat) :
    d.writePlace links here bytes = .ok (up, last) := by
  have hseparator : ¬ bytes.getLast? = some Path.separator := by simpa [steps] using hends
  unfold Disk.writePlace
  rw [hfrom]
  simp only [hseparator, if_false]

/-- The place of a file to be written is no link. -/
theorem not_symlink_of_writePlace (h : d.writePlace links here bytes = .ok (above, name))
    (target : List UInt8) : d.content? (above ++ [name]) ≠ some (.symlink target) := by
  induction links using Nat.strongRecOn generalizing here bytes with
  | ind links ih =>
    obtain ⟨-, up, last, -, ⟨_, fewer, -, rfl, hrest⟩ | ⟨hlink, rfl, rfl⟩⟩ := writePlace_eq_ok h
    · exact ih fewer (Nat.lt_succ_self fewer) hrest
    · exact hlink target

/-- On a disk that has grown a file is written at the same place, unless a link is there now. -/
theorem Grows.writePlace (h : Grows d d')
    (hplace : d.writePlace links here bytes = .ok (above, name))
    (hfree : ∀ target, d'.content? (above ++ [name]) ≠ some (.symlink target)) :
    d'.writePlace links here bytes = .ok (above, name) := by
  induction links using Nat.strongRecOn generalizing here bytes with
  | ind links ih =>
    obtain ⟨hends, up, last, hfrom, ⟨target, fewer, htarget, rfl, hrest⟩ | ⟨-, rfl, rfl⟩⟩ :=
      writePlace_eq_ok hplace
    · rw [writePlace_of_symlink hends (h.aboveFrom hfrom) (h.symlink htarget)]
      exact ih fewer (Nat.lt_succ_self fewer) hrest
    · exact writePlace_of_not_symlink hends (h.aboveFrom hfrom) hfree links

/-- A walk along a path finds the place at which a file is written under it. -/
theorem place_of_writePlace {fewer : Nat} (hfewer : fewer ≤ maxLinks)
    (hplace : d.writePlace links here bytes = .ok (above, name))
    (hwalk : d.walk true fewer (start bytes here) (namesOf bytes) = .ok (.found place node)) :
    place = above ++ [name] := by
  induction links using Nat.strongRecOn generalizing here bytes fewer with
  | ind links ih =>
    obtain ⟨hends, up, last, hfrom, hlast⟩ := writePlace_eq_ok hplace
    obtain ⟨names, hnames, hname, upNode, hup⟩ := walk_of_aboveFrom hfrom
    rw [namesOf, hends, hnames, if_neg Bool.false_ne_true, List.append_nil] at hwalk
    obtain ⟨up', upNode', hup'⟩ := exists_walk_dot hwalk
    obtain ⟨hdirectory, fewest, hfewest, hrest⟩ := walk_append hup'
    -- both walks come to the directory above, though not with as many links
    have hmore := walk_add hup' (maxLinks - fewer)
    rw [Nat.add_sub_cancel' hfewer, hup] at hmore
    cases hmore
    rw [hrest] at hwalk
    obtain ⟨target, less, htarget, rfl, hinner⟩ | ⟨hlink, rfl, rfl⟩ := hlast
    · have hturn : d.turn up last = .through target := by rw [turn_step hdirectory hname, htarget]
      obtain ⟨least, rfl, hinnerWalk⟩ := walk_through_eq_ok hturn hwalk
      rw [List.append_nil] at hinnerWalk
      exact ih less (Nat.lt_succ_self less) (by omega) hinner hinnerWalk
    · obtain ⟨content, hcontent⟩ := content?_of_walk_step hname hwalk
      have hturn := turn_of_not_symlink hdirectory hname hcontent
        fun target htarget => hlink target (hcontent.trans (congrArg some htarget))
      rw [walk_enters hturn] at hwalk
      obtain ⟨found, -, hspot⟩ := walk_nil_eq_ok hwalk
      cases hspot
      rfl

/-! ## Opening and writing -/

theorem writes_set (hfree : ∀ content, d.content? place = some content → ∃ old, content = .file old)
    (data : List UInt8) : Writes place data d (d.set place (.file data)) :=
  ⟨rfl, by rw [content?_set, if_pos rfl], fun l hl => by rw [content?_set, if_neg hl], hfree⟩

theorem writes_link (hfree : d.content? (above ++ [name]) = none) (data : List UInt8) :
    Writes (above ++ [name]) data d (d.link above name (.file data)) :=
  ⟨rfl, by rw [content?_link, if_pos rfl], fun l hl => by rw [content?_link, if_neg hl],
    fun content hcontent => by rw [hfree] at hcontent; cases hcontent⟩

theorem Writes.trans {data' : List UInt8} {d'' : Disk} (h : Writes place data d d')
    (h' : Writes place data' d' d'') : Writes place data' d d'' :=
  ⟨h'.current.trans h.current, h'.written, fun l hl => (h'.others l hl).trans (h.others l hl), h.free⟩

theorem place_of_openNew {opened : Disk} (h : openNew p d = .ok (place, opened)) :
    ∃ above name, d.writePlace maxLinks d.current p.bytes = .ok (above, name) ∧
      place = above ++ [name] ∧ Writes place [] d opened ∧ opened.contains p = true := by
  rw [openNew] at h
  cases hcheck : checkPath p with
  | error e => simp [hcheck, bind, Except.bind] at h
  | ok u =>
    cases hplace : d.writePlace maxLinks d.current p.bytes with
    | error e => simp [hcheck, hplace, bind, Except.bind] at h
    | ok found =>
      obtain ⟨above, name⟩ := found
      simp only [hcheck, hplace, bind, Except.bind] at h
      cases hcontent : d.content? (above ++ [name]) with
      | none =>
        simp only [hcontent] at h
        split at h
        · cases h
          exact ⟨above, name, rfl, rfl, writes_link hcontent [], ‹_›⟩
        · cases h
      | some content =>
        cases content with
        | directory => simp [hcontent] at h
        | symlink target => exact absurd hcontent (not_symlink_of_writePlace hplace target)
        | file old =>
          simp only [hcontent] at h
          split at h
          · cases h
            refine ⟨above, name, rfl, rfl, writes_set (fun content h => ⟨old, ?_⟩) [], ‹_›⟩
            exact Option.some.inj (h.symm.trans hcontent)
          · cases h

theorem openNew_eq_ok {opened : Disk} (h : openNew p d = .ok (place, opened)) :
    Writes place [] d opened ∧ opened.FileAt p place := by
  obtain ⟨above, name, hplace, rfl, hwrites, hcontains⟩ := place_of_openNew h
  have hwritten : opened.writePlace maxLinks opened.current p.bytes = .ok (above, name) := by
    rw [hwrites.current]
    refine hwrites.grows.writePlace hplace fun target htarget => ?_
    rw [hwrites.written] at htarget
    cases htarget
  refine ⟨hwrites, ?_, ⟨above, name, hwritten, rfl⟩, ⟨[], hwrites.written⟩⟩
  rw [contains] at hcontains
  cases hlookup : opened.lookup true p with
  | error e =>
    rw [hlookup] at hcontains
    cases hcontains
  | ok found =>
    obtain ⟨place, node⟩ := found
    obtain rfl := place_of_writePlace (Nat.le_refl maxLinks) hwritten (lookup_eq_ok.mp hlookup).2
    exact place?_eq_some.mpr ⟨node, hlookup⟩

/-- A file stays where it is as the disk grows. -/
theorem FileAt.of_grows (h : d.FileAt p place) (hgrows : Grows d d') : d'.FileAt p place := by
  obtain ⟨hfound, ⟨above, name, hplace, rfl⟩, ⟨data, hdata⟩⟩ := h
  obtain ⟨data', hdata'⟩ := hgrows.file hdata
  refine ⟨hgrows.place? hfound, ⟨above, name, ?_, rfl⟩, ⟨data', hdata'⟩⟩
  rw [hgrows.current]
  refine hgrows.writePlace hplace fun target htarget => ?_
  rw [hdata'] at htarget
  cases htarget

theorem FileAt.writes_set (h : d.FileAt p place) (data : List UInt8) :
    Writes place data d (d.set place (.file data)) := by
  obtain ⟨old, hold⟩ := h.file
  exact Disk.writes_set (fun content h => ⟨old, Option.some.inj (h.symm.trans hold)⟩) data

theorem FileAt.openNew (h : d.FileAt p place) :
    Disk.openNew p d = .ok (place, d.set place (.file [])) := by
  have hcontains := contains_of_place? (h.of_grows (h.writes_set []).grows).found
  obtain ⟨hfound, ⟨above, name, hplace, rfl⟩, ⟨data, hdata⟩⟩ := h
  obtain ⟨node, hlookup⟩ := place?_eq_some.mp hfound
  rw [Disk.openNew, (lookup_eq_ok.mp hlookup).1]
  simp only [bind, Except.bind, hplace, hdata, hcontains, if_true]

/-- A file that has been written is found under its path, and nothing else has changed. -/
theorem writeFile_eq_ok (h : writeFile p data d = (.ok (), d')) :
    ∃ place, Writes place data d d' ∧ d'.FileAt p place := by
  unfold writeFile at h
  split at h
  · cases h
  · rename_i place opened hopen
    cases h
    obtain ⟨hwrites, hfile⟩ := openNew_eq_ok hopen
    have hset := hfile.writes_set data
    exact ⟨place, hwrites.trans hset, hfile.of_grows hset.grows⟩

theorem exists_writeFile (h : (openNew p d).isOk = true) (data : List UInt8) :
    ∃ d', writeFile p data d = (.ok (), d') := by
  rw [writeFile]
  cases hopen : openNew p d with
  | error e =>
    rw [hopen] at h
    cases h
  | ok opened => exact ⟨_, rfl⟩

/-- A file that is there can be written again. -/
theorem FileAt.writeFile (h : d.FileAt p place) (data : List UInt8) :
    ∃ d', Disk.writeFile p data d = (.ok (), d') ∧ Writes place data d d' := by
  obtain ⟨hwrites, hfile⟩ := openNew_eq_ok h.openNew
  exact ⟨_, by rw [Disk.writeFile, h.openNew], hwrites.trans (hfile.writes_set data)⟩

/-! ## Texts -/

theorem files_readText (d : Disk) (p : Path) : Files.readText d p = d.readText p := rfl

theorem files_writeText (d : Disk) (p : Path) (text : String) :
    Files.writeText p text d = writeFile p (Utf8.encode text) d := rfl

theorem readText_eq_ok {text : String} :
    d.readText p = .ok text ↔
      ∃ data, d.readFile p = .ok data ∧ Utf8.decode? data = some text := by
  rw [readText]
  cases d.readFile p with
  | error e => simp [bind, Except.bind]
  | ok data => cases hdecode : Utf8.decode? data <;> simp [bind, Except.bind, hdecode]

theorem FileAt.readText {text : String} (h : d.FileAt p place)
    (hcontent : d.content? place = some (.file (Utf8.encode text))) :
    d.readText p = .ok text :=
  readText_eq_ok.mpr ⟨Utf8.encode text, readFile_eq_ok.mpr ⟨place, h.found, hcontent⟩,
    Utf8.decode?_encode text⟩

theorem ChangesOnly.readText {text : String} (h : d.ChangesOnly place d')
    (hread : d.readText p = .ok text) (hne : d'.place? p ≠ some place) :
    d'.readText p = .ok text := by
  obtain ⟨data, hdata, hdecode⟩ := readText_eq_ok.mp hread
  exact readText_eq_ok.mpr ⟨data, h.readFile hdata hne, hdecode⟩

/-- A file that can be opened takes any text, and can be opened to take another one. -/
theorem exists_writeText (h : (openNew p d).isOk = true) (text : String) :
    ∃ d', Files.writeText p text d = (.ok (), d') ∧ (openNew p d').isOk = true ∧
      Files.contains d' p = true ∧ Files.readText d' p = .ok text := by
  obtain ⟨d', hwrite⟩ := exists_writeFile h (Utf8.encode text)
  obtain ⟨place, hwrites, hfile⟩ := writeFile_eq_ok hwrite
  have hagain : (openNew p d').isOk = true := by rw [hfile.openNew]; rfl
  exact ⟨d', hwrite, hagain, contains_of_place? hfile.found, hfile.readText hwrites.written⟩

end IncrementalBackup.Disk
