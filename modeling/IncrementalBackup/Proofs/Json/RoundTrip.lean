import IncrementalBackup.Proofs.Json.Scanning

/-!
# Written values are read back

The reader goes from the tokens of a value to the value, whatever it is in the middle of. So the text
of a plain value is read as that value, in both layouts.
-/

namespace IncrementalBackup.Json

theorem run?_cons {state next : State} {t : Token} (h : next? state t = some next)
    (rest : List Token) : run? state (t :: rest) = run? next rest := by
  rw [run?, h, Option.bind_some]

/-- From the start of a value the reader gets behind the value, whatever comes next. -/
def IsRead (v : Json) : Prop :=
  ∀ stack rest, run? (.value stack) (tokensOf v ++ rest) = run? (.after v stack) rest

theorem run?_tokensOfItems {items : List Json} (h : ∀ v ∈ items, IsRead v) (v : Json)
    (before : List Json) (stack : List Frame) (rest : List Token) :
    run? (.after v (.items before :: stack)) (tokensOfItems items ++ rest) =
      run? (.after (.array ((v :: before).reverse ++ items)) stack) rest := by
  induction items generalizing v before with
  | nil =>
    rw [List.append_nil]
    exact run?_cons rfl rest
  | cons item items ih =>
    obtain ⟨hitem, hitems⟩ := List.forall_mem_cons.mp h
    have hcomma : next? (.after v (.items before :: stack)) .comma =
        some (.value (.items (v :: before) :: stack)) := rfl
    rw [tokensOfItems, List.append_assoc, List.cons_append, run?_cons hcomma, hitem, ih hitems]
    simp

theorem run?_tokensOfMember {m : JsonText × Json} (h : IsRead m.2)
    (before : List (JsonText × Json)) (stack : List Frame) (rest : List Token) :
    run? (.key before stack) (tokensOfMember m ++ rest) =
      run? (.after m.2 (.member before m.1 :: stack)) rest := by
  have hkey : next? (.key before stack) (.string m.1) = some (.colon before m.1 stack) := rfl
  have hcolon : next? (.colon before m.1 stack) .colon =
      some (.value (.member before m.1 :: stack)) := rfl
  rw [tokensOfMember, List.cons_append, List.cons_append, run?_cons hkey, run?_cons hcolon, h]

theorem run?_tokensOfMembers {members : List (JsonText × Json)} (h : ∀ m ∈ members, IsRead m.2)
    (v : Json) (key : JsonText) (before : List (JsonText × Json)) (stack : List Frame)
    (rest : List Token) :
    run? (.after v (.member before key :: stack)) (tokensOfMembers members ++ rest) =
      run? (.after (.object (((key, v) :: before).reverse ++ members)) stack) rest := by
  induction members generalizing v key before with
  | nil =>
    rw [List.append_nil]
    exact run?_cons rfl rest
  | cons m members ih =>
    obtain ⟨hm, hmembers⟩ := List.forall_mem_cons.mp h
    have hcomma : next? (.after v (.member before key :: stack)) .comma =
        some (.key ((key, v) :: before) stack) := rfl
    rw [tokensOfMembers, List.append_assoc, List.cons_append, run?_cons hcomma,
      run?_tokensOfMember hm, ih hmembers]
    simp

/-- A first item may come where the array may also end, since no value begins with an end. -/
theorem run?_valueOrEnd (v : Json) (stack : List Frame) (rest : List Token) :
    run? (.valueOrEnd stack) (tokensOf v ++ rest) =
      run? (.value (.items [] :: stack)) (tokensOf v ++ rest) := by
  cases v with
  | array items => cases items <;> rfl
  | object members => cases members <;> rfl
  | _ => rfl

theorem run?_keyOrEnd (m : JsonText × Json) (stack : List Frame) (rest : List Token) :
    run? (.keyOrEnd stack) (tokensOfMember m ++ rest) =
      run? (.key [] stack) (tokensOfMember m ++ rest) := by
  obtain ⟨key, v⟩ := m
  rfl

theorem Plain.isRead {v : Json} (h : Plain v) : IsRead v := by
  induction h with
  | null => exact fun _ _ => rfl
  | boolean value => exact fun _ _ => rfl
  | integer value => exact fun _ _ => rfl
  | string s => exact fun _ _ => rfl
  | @array items _ ih =>
    intro stack rest
    cases items with
    | nil => rfl
    | cons item items =>
      obtain ⟨hitem, hitems⟩ := List.forall_mem_cons.mp ih
      have hopen : next? (.value stack) .beginArray = some (.valueOrEnd stack) := rfl
      rw [tokensOf, List.append_assoc, List.cons_append, run?_cons hopen, run?_valueOrEnd, hitem,
        run?_tokensOfItems hitems]
      rfl
  | @object members _ _ ih =>
    intro stack rest
    cases members with
    | nil => rfl
    | cons m members =>
      obtain ⟨hm, hmembers⟩ := List.forall_mem_cons.mp ih
      have hopen : next? (.value stack) .beginObject = some (.keyOrEnd stack) := rfl
      rw [tokensOf, List.append_assoc, List.cons_append, run?_cons hopen, run?_keyOrEnd,
        run?_tokensOfMember hm, run?_tokensOfMembers hmembers]
      rfl

theorem read?_write {v : Json} (h : Plain v) (layout : Layout) :
    read? (String.ofList (write layout v)) = some v := by
  have hscanned := h.isScanned layout [] nofun
  have hread := h.isRead [] []
  rw [List.append_nil] at hscanned hread
  have htokens : tokens? (write layout v) = some (tokensOf v) := by
    rw [tokens?, hscanned, tokensFrom]
    simp [finish?]
  rw [read?, String.toList_ofList, htokens, Option.bind_eq_bind, Option.bind_some, hread]
  rfl

theorem read?_pretty {v : Json} (h : Plain v) : read? v.pretty = some v := read?_write h _

end IncrementalBackup.Json
