import IncrementalBackup.Storage.Disk

/-!
# Walks on a disk

What one name does to a walk, and from it what the names of a path do. Names that others follow lead
to a place from which the walk goes on, or stop it whatever follows. A walk that finds a place finds it
with more links to follow as well, and on every disk that has grown.
-/

namespace IncrementalBackup

/-- What a walk sees of a content: of a file only that it is one. -/
def DiskContent.outline : DiskContent → DiskContent
  | .file _ => .file []
  | content => content

namespace Disk

/-- Nothing is taken away or turned into something else; files may hold other data. -/
structure Grows (d d' : Disk) : Prop where
  current : d'.current = d.current
  content : ∀ place content, d.content? place = some content →
    ∃ content', d'.content? place = some content' ∧ content'.outline = content.outline

/-- Where a name leads from a place. -/
inductive Turn where
  | enters (place : DiskPlace)
  | through (target : List UInt8)
  | missing
  | blocked (code : SystemCode)

def turn (d : Disk) (here : DiskPlace) (name : List UInt8) : Turn :=
  match d.content? here with
  | none => .blocked .noEntry
  | some content =>
    if content ≠ .directory then .blocked .notDirectory
    else if name = Path.dot then .enters here
    else if name = Path.dotDot then .enters here.dropLast
    else if maxName < name.length then .blocked .nameTooLong
    else
      match d.content? (here ++ [name]) with
      | none => .missing
      | some (.symlink target) => .through target
      | some _ => .enters (here ++ [name])

/-- A name that leads one level down and is not too long. -/
def IsStep (name : List UInt8) : Prop :=
  name ≠ Path.dot ∧ name ≠ Path.dotDot ∧ name.length ≤ maxName

/-- The names of a path, and a `.` behind them if it must be a directory. -/
def namesOf (bytes : List UInt8) : List (List UInt8) :=
  (steps bytes).1 ++ if (steps bytes).2 then [Path.dot] else []

variable {d d' : Disk} {links : Nat} {here place : DiskPlace} {name : List UInt8}
  {names rest : List (List UInt8)} {node : DiskNode}

/-! ## One name -/

theorem walk_cons (d : Disk) (links : Nat) (here : DiskPlace) (name : List UInt8)
    (rest : List (List UInt8)) :
    d.walk true links here (name :: rest) =
      match d.turn here name with
      | .enters place => d.walk true links place rest
      | .through target =>
        match links with
        | 0 => .error .loop
        | links + 1 => d.walk true links (start target here) (namesOf target ++ rest)
      | .missing => if rest = [] then .ok (.missing here name) else .error .noEntry
      | .blocked code => .error code := by
  rw [walk, turn, content?]
  cases d.nodes.get? here with
  | none => rfl
  | some node =>
    simp only [Option.map_some]
    by_cases hcontent : node.content ≠ .directory
    · simp only [if_pos hcontent]
    by_cases hdot : name = Path.dot
    · simp only [if_neg hcontent, if_pos hdot]
    by_cases hdotDot : name = Path.dotDot
    · simp only [if_neg hcontent, if_neg hdot, if_pos hdotDot]
    by_cases hlong : maxName < name.length
    · simp only [if_neg hcontent, if_neg hdot, if_neg hdotDot, if_pos hlong]
    simp only [if_neg hcontent, if_neg hdot, if_neg hdotDot, if_neg hlong, content?]
    cases d.nodes.get? (here ++ [name]) with
    | none => rfl
    | some next =>
      cases hnext : next.content with
      | directory => simp [hnext]
      | file data => simp [hnext]
      | symlink target => cases links <;> simp [hnext, namesOf]

theorem turn_dot (h : d.content? here = some .directory) : d.turn here Path.dot = .enters here := by
  simp [turn, h]

theorem turn_dotDot (h : d.content? here = some .directory) :
    d.turn here Path.dotDot = .enters here.dropLast := by
  have hne : Path.dotDot ≠ Path.dot := by decide
  simp [turn, h, hne]

theorem turn_step (h : d.content? here = some .directory) (hname : IsStep name) :
    d.turn here name =
      match d.content? (here ++ [name]) with
      | none => .missing
      | some (.symlink target) => .through target
      | some _ => .enters (here ++ [name]) := by
  obtain ⟨hdot, hdotDot, hlength⟩ := hname
  simp only [turn, h, ne_eq, not_true_eq_false, if_false, hdot, hdotDot, Nat.not_lt.mpr hlength]

theorem turn_of_not_symlink {content : DiskContent} (h : d.content? here = some .directory)
    (hname : IsStep name) (hcontent : d.content? (here ++ [name]) = some content)
    (hlink : ∀ target, content ≠ .symlink target) :
    d.turn here name = .enters (here ++ [name]) := by
  rw [turn_step h hname, hcontent]
  cases content with
  | symlink target => exact absurd rfl (hlink target)
  | _ => rfl

theorem directory_of_turn (h : ∀ code, d.turn here name ≠ .blocked code) :
    d.content? here = some .directory ∧
      (name = Path.dot ∨ name = Path.dotDot ∨ IsStep name) := by
  unfold turn at h
  split at h
  · exact absurd rfl (h .noEntry)
  · rename_i content hcontent
    split at h
    · exact absurd rfl (h .notDirectory)
    · rename_i hdirectory
      refine ⟨by rw [hcontent, Decidable.not_not.mp hdirectory], ?_⟩
      split at h
      · exact .inl ‹_›
      · split at h
        · exact .inr (.inl ‹_›)
        · split at h
          · exact absurd rfl (h .nameTooLong)
          · exact .inr (.inr ⟨‹_›, ‹_›, Nat.not_lt.mp ‹_›⟩)

theorem walk_nil (h : d.nodes.get? place = some node) (follow : Bool) (links : Nat) :
    d.walk follow links place [] = .ok (.found place node) := by
  rw [walk, h]

theorem walk_nil_eq_ok {spot : Spot} (h : d.walk true links here [] = .ok spot) :
    ∃ node, d.nodes.get? here = some node ∧ spot = .found here node := by
  rw [walk] at h
  split at h
  · cases h
  · cases h
    exact ⟨_, ‹_›, rfl⟩

theorem walk_enters (hturn : d.turn here name = .enters place) (links : Nat)
    (rest : List (List UInt8)) :
    d.walk true links here (name :: rest) = d.walk true links place rest := by
  rw [walk_cons, hturn]

theorem walk_through {target : List UInt8} (hturn : d.turn here name = .through target)
    (links : Nat) (rest : List (List UInt8)) :
    d.walk true (links + 1) here (name :: rest) =
      d.walk true links (start target here) (namesOf target ++ rest) := by
  rw [walk_cons, hturn]

theorem walk_through_eq_ok {target : List UInt8} {spot : Spot}
    (hturn : d.turn here name = .through target)
    (h : d.walk true links here (name :: rest) = .ok spot) :
    ∃ fewer, links = fewer + 1 ∧
      d.walk true fewer (start target here) (namesOf target ++ rest) = .ok spot := by
  cases links with
  | zero =>
    rw [walk_cons, hturn] at h
    cases h
  | succ fewer => exact ⟨fewer, rfl, by rwa [walk_through hturn] at h⟩

/-- What the first name of a walk that ends at a spot can be. -/
theorem walk_cons_eq_ok {spot : Spot} (h : d.walk true links here (name :: rest) = .ok spot) :
    (∃ place, d.turn here name = .enters place ∧ d.walk true links place rest = .ok spot) ∨
      (∃ target fewer, d.turn here name = .through target ∧ links = fewer + 1 ∧
        d.walk true fewer (start target here) (namesOf target ++ rest) = .ok spot) ∨
      d.turn here name = .missing ∧ rest = [] ∧ spot = .missing here name := by
  cases hturn : d.turn here name with
  | enters place =>
    rw [walk_enters hturn] at h
    exact .inl ⟨place, rfl, h⟩
  | through target =>
    obtain ⟨fewer, hlinks, hrest⟩ := walk_through_eq_ok hturn h
    exact .inr (.inl ⟨target, fewer, rfl, hlinks, hrest⟩)
  | missing =>
    rw [walk_cons, hturn] at h
    dsimp only at h
    split at h
    · rename_i hrest
      cases h
      exact .inr (.inr ⟨rfl, hrest, rfl⟩)
    · cases h
  | blocked code =>
    rw [walk_cons, hturn] at h
    cases h

/-- The induction of a walk: a name leads on with as many links, or through one of them to any names
that its target has. -/
theorem walk_induction {motive : Nat → DiskPlace → List (List UInt8) → Prop}
    (nil : ∀ links here, motive links here [])
    (cons : ∀ links here name rest, (∀ place, motive links place rest) →
      (∀ fewer place names, fewer < links → motive fewer place names) →
        motive links here (name :: rest)) (links : Nat) (here : DiskPlace)
    (names : List (List UInt8)) : motive links here names := by
  induction links using Nat.strongRecOn generalizing here names with
  | ind links ih =>
    induction names generalizing here with
    | nil => exact nil links here
    | cons name rest hrest =>
      exact cons links here name rest (fun place => hrest place)
        fun fewer place names hfewer => ih fewer hfewer place names

/-! ## Names and what follows them -/

/-- Names lead to a place from which the walk goes on, or stop a walk that has names left. -/
theorem walk_append_cases (d : Disk) (links : Nat) (here : DiskPlace)
    (names : List (List UInt8)) :
    (∃ fewer place, fewer ≤ links ∧
        ∀ rest, d.walk true links here (names ++ rest) = d.walk true fewer place rest) ∨
      ∀ rest, rest ≠ [] → ∃ code, d.walk true links here (names ++ rest) = .error code := by
  induction links, here, names using walk_induction with
  | nil links here => exact .inl ⟨links, here, Nat.le_refl links, fun rest => rfl⟩
  | cons links here name names henters hthrough =>
    simp only [List.cons_append, walk_cons]
    cases d.turn here name with
    | enters place => exact henters place
    | missing =>
      refine .inr fun rest hrest => ⟨.noEntry, if_neg ?_⟩
      exact fun h => hrest (List.append_eq_nil_iff.mp h).2
    | blocked code => exact .inr fun rest _ => ⟨code, rfl⟩
    | through target =>
      cases links with
      | zero => exact .inr fun rest _ => ⟨.loop, rfl⟩
      | succ links =>
        simp only [← List.append_assoc]
        obtain ⟨fewer, place, hfewer, hwalk⟩ | hstop :=
          hthrough links (start target here) (namesOf target ++ names) (Nat.lt_succ_self links)
        · exact .inl ⟨fewer, place, Nat.le_succ_of_le hfewer, hwalk⟩
        · exact .inr hstop

theorem walk_add {spot : Spot} (h : d.walk true links here names = .ok spot) (more : Nat) :
    d.walk true (links + more) here names = .ok spot := by
  induction links, here, names using walk_induction with
  | nil links here =>
    obtain ⟨node, hnode, rfl⟩ := walk_nil_eq_ok h
    exact walk_nil hnode true (links + more)
  | cons links here name names henters hthrough =>
    obtain ⟨place, hturn, hwalk⟩ | ⟨target, fewer, hturn, rfl, hwalk⟩ | ⟨hturn, rfl, rfl⟩ :=
      walk_cons_eq_ok h
    · rw [walk_enters hturn]
      exact henters place hwalk
    · rw [Nat.succ_add, walk_through hturn]
      exact hthrough fewer _ _ (Nat.lt_succ_self fewer) hwalk
    · rw [walk_cons, hturn]
      rfl

theorem get?_of_walk (h : d.walk true links here names = .ok (.found place node)) :
    d.nodes.get? place = some node := by
  induction links, here, names using walk_induction with
  | nil links here =>
    obtain ⟨found, hfound, hspot⟩ := walk_nil_eq_ok h
    cases hspot
    exact hfound
  | cons links here name names henters hthrough =>
    obtain ⟨place, hturn, hwalk⟩ | ⟨target, fewer, hturn, rfl, hwalk⟩ | ⟨hturn, rfl, hspot⟩ :=
      walk_cons_eq_ok h
    · exact henters place hwalk
    · exact hthrough fewer _ _ (Nat.lt_succ_self fewer) hwalk
    · cases hspot

/-- A walk that goes on from a place along a name has found a directory there. -/
theorem directory_of_walk {spot : Spot} (h : d.walk true links here (name :: rest) = .ok spot) :
    d.content? here = some .directory ∧
      (name = Path.dot ∨ name = Path.dotDot ∨ IsStep name) := by
  refine directory_of_turn fun code hcode => ?_
  rw [walk_cons, hcode] at h
  cases h

/-- A walk along a name that leads one level down has found something under it. -/
theorem content?_of_walk_step (hname : IsStep name)
    (h : d.walk true links here (name :: rest) = .ok (.found place node)) :
    ∃ content, d.content? (here ++ [name]) = some content := by
  have hhere := (directory_of_walk h).1
  cases hnext : d.content? (here ++ [name]) with
  | some content => exact ⟨content, rfl⟩
  | none =>
    have hturn : d.turn here name = .missing := by rw [turn_step hhere hname, hnext]
    rw [walk_cons, hturn] at h
    dsimp only at h
    split at h <;> cases h

theorem walk_dot_eq_ok (h : d.walk true links here [Path.dot] = .ok (.found place node)) :
    d.content? here = some .directory ∧ place = here := by
  have hhere := (directory_of_walk h).1
  rw [walk_enters (turn_dot hhere)] at h
  obtain ⟨found, -, hspot⟩ := walk_nil_eq_ok h
  cases hspot
  exact ⟨hhere, rfl⟩

/-- From the directory that names lead to, the walk goes on along whatever follows them. -/
theorem walk_append (h : d.walk true links here (names ++ [Path.dot]) = .ok (.found place node)) :
    d.content? place = some .directory ∧
      ∃ fewer, fewer ≤ links ∧
        ∀ rest, d.walk true links here (names ++ rest) = d.walk true fewer place rest := by
  obtain ⟨fewer, next, hfewer, hwalk⟩ | hstop := walk_append_cases d links here names
  · rw [hwalk] at h
    obtain ⟨hdirectory, rfl⟩ := walk_dot_eq_ok h
    exact ⟨hdirectory, fewer, hfewer, hwalk⟩
  · obtain ⟨code, hcode⟩ := hstop [Path.dot] (List.cons_ne_nil _ _)
    rw [hcode] at h
    cases h

/-- A walk that ends at a spot has come through a directory before each of its names. -/
theorem exists_walk_dot {spot : Spot} (h : d.walk true links here (names ++ name :: rest) = .ok spot) :
    ∃ place node, d.walk true links here (names ++ [Path.dot]) = .ok (.found place node) := by
  obtain ⟨fewer, next, hfewer, hwalk⟩ | hstop := walk_append_cases d links here names
  · rw [hwalk] at h
    have hnext := (directory_of_walk h).1
    obtain ⟨node, hnode, -⟩ := Option.map_eq_some_iff.mp hnext
    exact ⟨next, node, by rw [hwalk, walk_enters (turn_dot hnext), walk_nil hnode]⟩
  · obtain ⟨code, hcode⟩ := hstop (name :: rest) (List.cons_ne_nil _ _)
    rw [hcode] at h
    cases h

/-! ## Disks that have grown -/

theorem Grows.refl (d : Disk) : Grows d d :=
  ⟨rfl, fun _ content h => ⟨content, h, rfl⟩⟩

theorem Grows.trans {d'' : Disk} (h : Grows d d') (h' : Grows d' d'') : Grows d d'' := by
  refine ⟨h'.current.trans h.current, fun place content hplace => ?_⟩
  obtain ⟨kept, hkept, houtline⟩ := h.content place content hplace
  obtain ⟨last, hlast, houtline'⟩ := h'.content place kept hkept
  exact ⟨last, hlast, houtline'.trans houtline⟩

theorem Grows.directory (h : Grows d d') (hplace : d.content? place = some .directory) :
    d'.content? place = some .directory := by
  obtain ⟨content, hcontent, houtline⟩ := h.content place .directory hplace
  cases content with
  | directory => exact hcontent
  | _ => cases houtline

theorem Grows.symlink {target : List UInt8} (h : Grows d d')
    (hplace : d.content? place = some (.symlink target)) :
    d'.content? place = some (.symlink target) := by
  obtain ⟨content, hcontent, houtline⟩ := h.content place (.symlink target) hplace
  cases content with
  | symlink target' =>
    cases houtline
    exact hcontent
  | _ => cases houtline

theorem Grows.file {data : List UInt8} (h : Grows d d')
    (hplace : d.content? place = some (.file data)) :
    ∃ data', d'.content? place = some (.file data') := by
  obtain ⟨content, hcontent, houtline⟩ := h.content place (.file data) hplace
  cases content with
  | file data' => exact ⟨data', hcontent⟩
  | _ => cases houtline

theorem Grows.turn (h : Grows d d') (hmissing : d.turn here name ≠ .missing)
    (hblocked : ∀ code, d.turn here name ≠ .blocked code) :
    d'.turn here name = d.turn here name := by
  obtain ⟨hhere, rfl | rfl | hstep⟩ := directory_of_turn hblocked
  · rw [turn_dot hhere, turn_dot (h.directory hhere)]
  · rw [turn_dotDot hhere, turn_dotDot (h.directory hhere)]
  · rw [turn_step hhere hstep] at hmissing ⊢
    rw [turn_step (h.directory hhere) hstep]
    cases hnext : d.content? (here ++ [name]) with
    | none => exact absurd (by rw [hnext]) hmissing
    | some next =>
      cases next with
      | directory => rw [h.directory hnext]
      | symlink target => rw [h.symlink hnext]
      | file data =>
        obtain ⟨data', hdata⟩ := h.file hnext
        rw [hdata]

/-- A place that is found is found on a disk that has grown. -/
theorem Grows.walk (h : Grows d d')
    (hwalk : d.walk true links here names = .ok (.found place node)) :
    ∃ node', d'.walk true links here names = .ok (.found place node') := by
  induction links, here, names using walk_induction with
  | nil links here =>
    obtain ⟨found, hhere, hspot⟩ := walk_nil_eq_ok hwalk
    cases hspot
    obtain ⟨content, hcontent, -⟩ := h.content place node.content (by rw [content?, hhere]; rfl)
    obtain ⟨node', hnode', -⟩ := Option.map_eq_some_iff.mp hcontent
    exact ⟨node', walk_nil hnode' true links⟩
  | cons links here name names henters hthrough =>
    obtain ⟨next, hturn, hrest⟩ | ⟨target, fewer, hturn, rfl, hrest⟩ | ⟨hturn, rfl, hspot⟩ :=
      walk_cons_eq_ok hwalk
    · have hturn' : d'.turn here name = .enters next :=
        (h.turn (by simp [hturn]) (by simp [hturn])).trans hturn
      rw [walk_enters hturn']
      exact henters next hrest
    · have hturn' : d'.turn here name = .through target :=
        (h.turn (by simp [hturn]) (by simp [hturn])).trans hturn
      rw [walk_through hturn']
      exact hthrough fewer _ _ (Nat.lt_succ_self fewer) hrest
    · cases hspot

end Disk

end IncrementalBackup
