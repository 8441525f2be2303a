import IncrementalBackup.Proofs.OrderedMap
import IncrementalBackup.Proofs.Storage.Walk

/-!
# Directories of a disk

What a path leads to, and what is made when a directory is made with all that is missing above it.
Nothing that is there changes its content; the path then leads to a directory, and making it again
does nothing.
-/

namespace IncrementalBackup.Disk

/-- Nothing that is there changes its content. -/
structure Keeps (d d' : Disk) : Prop where
  current : d'.current = d.current
  content : ∀ place content, d.content? place = some content → d'.content? place = some content

variable {d d' : Disk} {here place : DiskPlace} {name bytes : List UInt8} {node : DiskNode} {p : Path}

theorem Keeps.refl (d : Disk) : Keeps d d := ⟨rfl, fun _ _ h => h⟩

theorem Keeps.trans {d'' : Disk} (h : Keeps d d') (h' : Keeps d' d'') : Keeps d d'' :=
  ⟨h'.current.trans h.current, fun place content hplace =>
    h'.content place content (h.content place content hplace)⟩

theorem Keeps.grows (h : Keeps d d') : Grows d d' :=
  ⟨h.current, fun place content hplace => ⟨content, h.content place content hplace, rfl⟩⟩

/-! ## Contents after a change -/

theorem content?_set (d : Disk) (place l : DiskPlace) (content : DiskContent) :
    (d.set place content).content? l = if l = place then some content else d.content? l := by
  rw [content?, set, OrderedMap.get?_insert]
  split <;> rfl

theorem content?_touch (d : Disk) (place l : DiskPlace) :
    (d.touch place).content? l = d.content? l := by
  unfold content? touch
  dsimp only
  rw [OrderedMap.get?_modify]
  split
  · rename_i heq
    rw [heq, Option.map_map]
    rfl
  · rfl

theorem content?_link (d : Disk) (above l : DiskPlace) (name : List UInt8) (content : DiskContent) :
    (d.link above name content).content? l =
      if l = above ++ [name] then some content else d.content? l := by
  rw [link, content?_touch, content?_set]

/-! ## Paths -/

theorem lookup_eq_ok :
    d.lookup true p = .ok (place, node) ↔
      checkPath p = .ok () ∧
        d.walk true maxLinks (start p.bytes d.current) (namesOf p.bytes) =
          .ok (.found place node) := by
  rw [lookup, locate, namesOf]
  cases checkPath p with
  | error e => simp [bind, Except.bind]
  | ok u =>
    simp only [bind, Except.bind, true_and]
    cases d.walk true maxLinks (start p.bytes d.current)
        ((steps p.bytes).1 ++ if (steps p.bytes).2 then [Path.dot] else []) with
    | error code => simp [ofCode]
    | ok spot => cases spot <;> simp [ofCode]

theorem content?_of_lookup (h : d.lookup true p = .ok (place, node)) :
    d.content? place = some node.content := by
  rw [content?, get?_of_walk (lookup_eq_ok.mp h).2, Option.map_some]

theorem Grows.lookup (h : Grows d d') (hlookup : d.lookup true p = .ok (place, node)) :
    ∃ node', d'.lookup true p = .ok (place, node') := by
  obtain ⟨hcheck, hwalk⟩ := lookup_eq_ok.mp hlookup
  obtain ⟨node', hwalk'⟩ := h.walk hwalk
  exact ⟨node', lookup_eq_ok.mpr ⟨hcheck, by rw [h.current, hwalk']⟩⟩

/-- The place that a path leads to. -/
def place? (d : Disk) (p : Path) : Option DiskPlace := (d.lookup true p).toOption.map Prod.fst

theorem place?_eq_some : d.place? p = some place ↔ ∃ node, d.lookup true p = .ok (place, node) := by
  rw [place?]
  cases d.lookup true p with
  | error e => simp [Except.toOption]
  | ok found =>
    obtain ⟨l, node⟩ := found
    simp [Except.toOption]

theorem Grows.place? (h : Grows d d') (hplace : d.place? p = some place) :
    d'.place? p = some place := by
  obtain ⟨node, hlookup⟩ := place?_eq_some.mp hplace
  exact place?_eq_some.mpr (h.lookup hlookup)

theorem readFile_eq_ok {data : List UInt8} :
    d.readFile p = .ok data ↔
      ∃ place, d.place? p = some place ∧ d.content? place = some (.file data) := by
  constructor
  · intro h
    rw [readFile] at h
    cases hlookup : d.lookup true p with
    | error e => simp [hlookup, bind, Except.bind] at h
    | ok found =>
      obtain ⟨place, node⟩ := found
      simp only [hlookup, bind, Except.bind] at h
      split at h
      · rename_i hdata
        cases h
        exact ⟨place, place?_eq_some.mpr ⟨node, hlookup⟩, hdata ▸ content?_of_lookup hlookup⟩
      · cases h
  · rintro ⟨place, hplace, hdata⟩
    obtain ⟨node, hlookup⟩ := place?_eq_some.mp hplace
    have hcontent := Option.some.inj ((content?_of_lookup hlookup).symm.trans hdata)
    rw [readFile, hlookup]
    simp only [bind, Except.bind, hcontent]

theorem contains_of_place? (h : d.place? p = some place) : d.contains p = true := by
  obtain ⟨node, hlookup⟩ := place?_eq_some.mp h
  rw [contains, hlookup]
  rfl

theorem isDirectory_iff :
    d.isDirectory p = true ↔
      ∃ place node, d.lookup true p = .ok (place, node) ∧ node.content = .directory := by
  rw [isDirectory]
  cases d.lookup true p with
  | error e => simp
  | ok found =>
    obtain ⟨place, node⟩ := found
    exact beq_iff_eq.trans
      ⟨fun h => ⟨place, node, rfl, h⟩, fun ⟨_, _, heq, h⟩ => by cases heq; exact h⟩

theorem Grows.isDirectory (h : Grows d d') (hdirectory : d.isDirectory p = true) :
    d'.isDirectory p = true := by
  obtain ⟨place, node, hlookup, hcontent⟩ := isDirectory_iff.mp hdirectory
  obtain ⟨node', hlookup'⟩ := h.lookup hlookup
  refine isDirectory_iff.mpr ⟨place, node', hlookup', ?_⟩
  have hplace := h.directory ((content?_of_lookup hlookup).trans (congrArg some hcontent))
  exact Option.some.inj ((content?_of_lookup hlookup').symm.trans hplace)

/-! ## The directory above the last step -/

/-- The last step of a path, and the directory that the names before it lead to. -/
theorem aboveFrom_concat {names : List (List UInt8)} {last : List UInt8}
    (hnames : (steps bytes).1 = names ++ [last]) :
    d.aboveFrom here bytes =
      match d.walk true maxLinks (start bytes here) (names ++ [Path.dot]) with
      | .error code => .error (.system code)
      | .ok (.missing _ _) => .error (.system .noEntry)
      | .ok (.found place _) =>
        if last = Path.dot then .ok (place, .dot)
        else if last = Path.dotDot then .ok (place, .dotDot)
        else if maxName < last.length then .error (.system .nameTooLong)
        else .ok (place, .name last) := by
  rw [aboveFrom]
  cases hwalk : d.walk true maxLinks (start bytes here) (names ++ [Path.dot]) with
  | error code => simp only [hnames, List.getLast?_concat, List.dropLast_concat, hwalk]
  | ok spot =>
    cases spot <;> simp only [hnames, List.getLast?_concat, List.dropLast_concat, hwalk]

theorem aboveFrom_of_walk {names : List (List UInt8)} (hnames : (steps bytes).1 = names ++ [name])
    (hname : IsStep name)
    (hwalk : d.walk true maxLinks (start bytes here) (names ++ [Path.dot]) =
      .ok (.found place node)) :
    d.aboveFrom here bytes = .ok (place, .name name) := by
  obtain ⟨hdot, hdotDot, hlength⟩ := hname
  rw [aboveFrom_concat hnames, hwalk]
  simp only [hdot, hdotDot, Nat.not_lt.mpr hlength, if_false]

theorem walk_of_aboveFrom (h : d.aboveFrom here bytes = .ok (place, .name name)) :
    ∃ names, (steps bytes).1 = names ++ [name] ∧ IsStep name ∧
      ∃ node, d.walk true maxLinks (start bytes here) (names ++ [Path.dot]) =
        .ok (.found place node) := by
  cases hlast : (steps bytes).1.getLast? with
  | none =>
    rw [aboveFrom] at h
    simp [hlast] at h
  | some last =>
    obtain ⟨names, hnames⟩ := List.getLast?_eq_some_iff.mp hlast
    rw [aboveFrom_concat hnames] at h
    split at h
    · cases h
    · cases h
    · rename_i found node hwalk
      split at h
      · cases h
      · split at h
        · cases h
        · split at h
          · cases h
          · cases h
            exact ⟨names, hnames, ⟨‹_›, ‹_›, Nat.not_lt.mp ‹_›⟩, node, hwalk⟩

theorem Grows.aboveFrom (h : Grows d d') (habove : d.aboveFrom here bytes = .ok (place, .name name)) :
    d'.aboveFrom here bytes = .ok (place, .name name) := by
  obtain ⟨names, hnames, hname, node, hwalk⟩ := walk_of_aboveFrom habove
  obtain ⟨node', hwalk'⟩ := h.walk hwalk
  exact aboveFrom_of_walk hnames hname hwalk'

theorem above_eq_ok {step : LastStep} (h : d.above p = .ok (place, step)) :
    checkPath p = .ok () ∧ d.aboveFrom d.current p.bytes = .ok (place, step) := by
  rw [above] at h
  cases hcheck : checkPath p with
  | error e => simp [hcheck, bind, Except.bind] at h
  | ok u => exact ⟨rfl, by simpa [hcheck, bind, Except.bind] using h⟩

/-- Where a path leads to something, its last step is in the directory above it. -/
theorem above_of_lookup (h : d.lookup true p = .ok (place, node)) :
    ∃ up step, d.above p = .ok (up, step) ∧
      ∀ name, step = .name name → ∃ content, d.content? (up ++ [name]) = some content := by
  obtain ⟨hcheck, hwalk⟩ := lookup_eq_ok.mp h
  have habove : d.above p = d.aboveFrom d.current p.bytes := by
    rw [above, hcheck]
    rfl
  rw [habove]
  cases hlast : (steps p.bytes).1.getLast? with
  | none => exact ⟨[], .root, by simp [aboveFrom, hlast], by rintro name ⟨⟩⟩
  | some last =>
    obtain ⟨names, hnames⟩ := List.getLast?_eq_some_iff.mp hlast
    rw [namesOf, hnames, List.append_assoc, List.singleton_append] at hwalk
    obtain ⟨up, upNode, hup⟩ := exists_walk_dot hwalk
    obtain ⟨hdirectory, fewer, -, hrest⟩ := walk_append hup
    rw [hrest] at hwalk
    rcases (directory_of_walk hwalk).2 with rfl | rfl | hlast
    · exact ⟨up, .dot, by rw [aboveFrom_concat hnames, hup]; rfl, by rintro name ⟨⟩⟩
    · exact ⟨up, .dotDot, by rw [aboveFrom_concat hnames, hup]; rfl, by rintro name ⟨⟩⟩
    · refine ⟨up, .name last, aboveFrom_of_walk hnames hlast hup, fun name hname => ?_⟩
      cases hname
      exact content?_of_walk_step hlast hwalk

/-! ## Making directories -/

theorem makeDir_eq_ok (h : makeDir p d = .ok d') :
    ∃ place name, d.above p = .ok (place, .name name) ∧ d.content? (place ++ [name]) = none ∧
      d' = d.link place name .directory := by
  rw [makeDir] at h
  cases habove : d.above p with
  | error e => simp [habove, bind, Except.bind] at h
  | ok found =>
    obtain ⟨place, step⟩ := found
    simp only [habove, bind, Except.bind] at h
    cases step with
    | name name =>
      dsimp only at h
      split at h
      · cases h
      · rename_i hfree
        cases h
        refine ⟨place, name, rfl, ?_, rfl⟩
        rw [content?, Option.map_eq_none_iff]
        simpa [OrderedMap.contains] using hfree
    | _ => cases h

theorem makeDir_of_lookup (h : d.lookup true p = .ok (place, node)) :
    makeDir p d = .error (.system .present) := by
  obtain ⟨up, step, habove, hstep⟩ := above_of_lookup h
  rw [makeDir, habove]
  simp only [bind, Except.bind]
  cases step with
  | name name =>
    obtain ⟨content, hcontent⟩ := hstep name rfl
    obtain ⟨found, hfound, -⟩ := Option.map_eq_some_iff.mp hcontent
    exact if_pos (OrderedMap.contains_iff.mpr ⟨found, hfound⟩)
  | _ => rfl

theorem keeps_makeDir (h : makeDir p d = .ok d') : Keeps d d' := by
  obtain ⟨place, name, -, hfree, rfl⟩ := makeDir_eq_ok h
  refine ⟨rfl, fun l content hl => ?_⟩
  have hne : l ≠ place ++ [name] := by
    rintro rfl
    rw [hfree] at hl
    cases hl
  rw [content?_link, if_neg hne, hl]

theorem isDirectory_of_makeDir (h : makeDir p d = .ok d') : d'.isDirectory p = true := by
  have hgrows := (keeps_makeDir h).grows
  obtain ⟨place, name, habove, -, rfl⟩ := makeDir_eq_ok h
  generalize hmade : d.link place name .directory = made at hgrows
  have hnew : made.content? (place ++ [name]) = some .directory := by
    rw [← hmade, content?_link, if_pos rfl]
  obtain ⟨hcheck, hfrom⟩ := above_eq_ok habove
  obtain ⟨names, hnames, hname, node, hwalk⟩ := walk_of_aboveFrom hfrom
  obtain ⟨node', hwalk'⟩ := hgrows.walk hwalk
  obtain ⟨hplace, fewer, -, hrest⟩ := walk_append hwalk'
  have hturn : made.turn place name = .enters (place ++ [name]) := by
    rw [turn_step hplace hname, hnew]
  obtain ⟨newNode, hnewNode, hcontent⟩ := Option.map_eq_some_iff.mp hnew
  refine isDirectory_iff.mpr ⟨place ++ [name], newNode, lookup_eq_ok.mpr ⟨hcheck, ?_⟩, hcontent⟩
  rw [hgrows.current, namesOf, hnames, List.append_assoc, List.singleton_append, hrest,
    walk_enters hturn]
  split
  · rw [walk_enters (turn_dot hnew), walk_nil hnewNode]
  · rw [walk_nil hnewNode]

theorem keeps_ensureDir {result : Except Failure Unit} (h : ensureDir p d = (result, d')) :
    Keeps d d' := by
  unfold ensureDir at h
  split at h
  · rename_i made hmade
    cases h
    exact keeps_makeDir hmade
  · split at h <;> cases h <;> exact .refl _

theorem isDirectory_of_ensureDir (h : ensureDir p d = (.ok (), d')) : d'.isDirectory p = true := by
  unfold ensureDir at h
  split at h
  · rename_i made hmade
    cases h
    exact isDirectory_of_makeDir hmade
  · split at h
    · cases h
      assumption
    · cases h

theorem keeps_makeChain {result : Except Failure Unit} {paths : List Path}
    (h : makeChain paths d = (result, d')) : Keeps d d' := by
  induction paths generalizing d d' result with
  | nil =>
    cases h
    exact .refl _
  | cons p up ih =>
    unfold makeChain at h
    split at h
    · rename_i made hmade
      cases h
      exact keeps_makeDir hmade
    · split at h
      · split at h
        · exact keeps_ensureDir h
        · split at h
          · rename_i hup
            cases h
            exact ih hup
          · rename_i hup
            exact (ih hup).trans (keeps_ensureDir h)
      · split at h <;> cases h <;> exact .refl _

theorem isDirectory_of_makeChain {up : List Path} (h : makeChain (p :: up) d = (.ok (), d')) :
    d'.isDirectory p = true := by
  unfold makeChain at h
  split at h
  · rename_i made hmade
    cases h
    exact isDirectory_of_makeDir hmade
  · split at h
    · split at h
      · exact isDirectory_of_ensureDir h
      · split at h
        · cases h
        · exact isDirectory_of_ensureDir h
    · split at h
      · cases h
        assumption
      · cases h

theorem exists_lineage (rounds : Nat) (p : Path) : ∃ up, lineage rounds p = p :: up := by
  cases rounds with
  | zero => exact ⟨[], rfl⟩
  | succ rounds =>
    unfold lineage
    split
    · exact ⟨[], rfl⟩
    · split <;> exact ⟨_, rfl⟩

theorem keeps_createDirAll {result : Except Failure Unit} (h : createDirAll p d = (result, d')) :
    Keeps d d' := by
  unfold createDirAll at h
  split at h
  · cases h
    exact .refl d
  · exact keeps_makeChain h

theorem isDirectory_of_createDirAll (h : createDirAll p d = (.ok (), d'))
    (hp : p.isEmpty = false) : d'.isDirectory p = true := by
  obtain ⟨up, hup⟩ := exists_lineage p.bytes.length p
  rw [createDirAll, hp, hup] at h
  exact isDirectory_of_makeChain h

/-- A directory that is there is not made again. -/
theorem createDirAll_of_isDirectory (h : p.isEmpty = false → d.isDirectory p = true) :
    createDirAll p d = (.ok (), d) := by
  cases hp : p.isEmpty with
  | true => rw [createDirAll, hp, if_pos rfl]
  | false =>
    obtain ⟨place, node, hlookup, -⟩ := isDirectory_iff.mp (h hp)
    obtain ⟨up, hup⟩ := exists_lineage p.bytes.length p
    have hkind : ¬ (Failure.system .present).kind = .notFound := by decide
    rw [createDirAll, hp, hup]
    unfold makeChain
    simp only [Bool.false_eq_true, if_false, makeDir_of_lookup hlookup, hkind, h hp, if_true]

end IncrementalBackup.Disk
