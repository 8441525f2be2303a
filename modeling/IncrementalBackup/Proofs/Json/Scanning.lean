import IncrementalBackup.Json.Format
import IncrementalBackup.Proofs.Json.Numbers

/-!
# Scanning written values

A value whose literals are text and whose numbers are whole is written so that its tokens are found
again, whatever layout it is written in. A bare word ends where no more of it can follow.
-/

namespace IncrementalBackup.Json

/-! ## Values and their tokens -/

/-- Values that are not only kept as they were once read: text and whole numbers. -/
inductive Plain : Json → Prop
  | null : Plain .null
  | boolean (value : Bool) : Plain (.boolean value)
  | integer (value : Int) : Plain (.integer value)
  | string (s : String) : Plain (.string (.text s))
  | array {items : List Json} (h : ∀ v ∈ items, Plain v) : Plain (.array items)
  | object {members : List (JsonText × Json)} (hkeys : ∀ m ∈ members, isText m.1 = true)
      (h : ∀ m ∈ members, Plain m.2) : Plain (.object members)

theorem Plain.list {α : Type} {f : α → Json} {items : List α} (h : ∀ a ∈ items, Plain (f a)) :
    Plain (.list f items) :=
  .array (List.forall_mem_map.mpr h)

theorem Plain.record {members : List (String × Json)} (h : ∀ m ∈ members, Plain m.2) :
    Plain (.record members) :=
  .object (List.forall_mem_map.mpr fun _ _ => rfl) (List.forall_mem_map.mpr h)

mutual

def tokensOf : Json → List Token
  | .string content => [.string content]
  | .array [] => [.beginArray, .endArray]
  | .array (item :: rest) => .beginArray :: tokensOf item ++ tokensOfItems rest
  | .object [] => [.beginObject, .endObject]
  | .object (m :: rest) => .beginObject :: tokensOfMember m ++ tokensOfMembers rest
  | value => [.scalar value]

/-- The tokens after an item, up to the end of the array. -/
def tokensOfItems : List Json → List Token
  | [] => [.endArray]
  | item :: rest => .comma :: tokensOf item ++ tokensOfItems rest

def tokensOfMember : JsonText × Json → List Token
  | (key, value) => .string key :: .colon :: tokensOf value

/-- The tokens after a member, up to the end of the object. -/
def tokensOfMembers : List (JsonText × Json) → List Token
  | [] => [.endObject]
  | m :: rest => .comma :: tokensOfMember m ++ tokensOfMembers rest

end

/-! ## Steps of the scanner -/

theorem tokensFrom_cons (mode : Mode) (c : Char) (rest : List Char) :
    tokensFrom mode (c :: rest) =
      (step? mode c).bind fun next => (tokensFrom next.2 rest).map (next.1 ++ ·) := by
  rw [tokensFrom]
  cases step? mode c with
  | none => rfl
  | some next =>
    change (tokensFrom next.2 rest).bind (fun later => some (next.1 ++ later)) =
      (tokensFrom next.2 rest).map (next.1 ++ ·)
    cases tokensFrom next.2 rest <;> rfl

theorem tokensFrom_of_step {mode mode' : Mode} {c : Char} {tokens : List Token}
    (h : step? mode c = some (tokens, mode')) (rest : List Char) :
    tokensFrom mode (c :: rest) = (tokensFrom mode' rest).map (tokens ++ ·) := by
  rw [tokensFrom_cons, h, Option.bind_some]

/-- A step that finds no token yet. -/
theorem tokensFrom_of_silent {mode mode' : Mode} {c : Char} (h : step? mode c = some ([], mode'))
    (rest : List Char) : tokensFrom mode (c :: rest) = tokensFrom mode' rest := by
  rw [tokensFrom_of_step h]
  exact Option.map_id_apply

/-- What comes next cannot belong to a bare word. -/
def EndsWord (rest : List Char) : Prop := ∀ c ∈ rest.head?, isBare c = false

theorem start?_of_isBare {c : Char} (h : isBare c = true) : start? c = some ([], .bare [c]) := by
  unfold start?
  split
  case h_12 => exact if_pos h
  all_goals exact absurd h (by decide)

theorem tokensFrom_bare {word rest : List Char} {value : Json} (before : List Char)
    (hword : ∀ c ∈ word, isBare c = true) (hrest : EndsWord rest)
    (hvalue : bareValue? (before.reverse ++ word) = some value) :
    tokensFrom (.bare before) (word ++ rest) =
      (tokensFrom .between rest).map (.scalar value :: ·) := by
  induction word generalizing before with
  | nil =>
    rw [List.append_nil] at hvalue
    cases rest with
    | nil => simp [tokensFrom, finish?, hvalue]
    | cons c rest =>
      have hc : isBare c = false := hrest c rfl
      have hstep : step? (.bare before) c =
          (start? c).map fun next => (.scalar value :: next.1, next.2) := by
        simp only [step?, hc, hvalue]
        cases start? c <;> rfl
      rw [List.nil_append, tokensFrom_cons, tokensFrom_cons, hstep]
      change ((start? c).map _).bind _ = ((start? c).bind _).map _
      cases start? c with
      | none => rfl
      | some next => simp [Function.comp_def]
  | cons c word ih =>
    obtain ⟨hc, hword⟩ := List.forall_mem_cons.mp hword
    have hstep : step? (.bare before) c = some ([], .bare (c :: before)) := if_pos hc
    rw [List.cons_append, tokensFrom_of_silent hstep]
    exact ih (c :: before) hword (by simpa using hvalue)

/-! ## String literals -/

/-- The piece that a written character is read as: control characters without a letter of their own
are written as units. -/
def pieceOf (c : Char) : Piece :=
  if escapeOf? c = none ∧ c.toNat < 0x20 then .unit c.toNat else .char c

theorem characters?_map_pieceOf (cs : List Char) : characters? (cs.map pieceOf) = some cs := by
  induction cs with
  | nil => rfl
  | cons c cs ih =>
    rw [List.map_cons, pieceOf]
    split
    · rename_i hcontrol
      rw [characters?.eq_def]
      dsimp only
      rw [if_pos (.inl (by omega)), ih, Char.ofNat_toNat]
      rfl
    · rw [characters?, ih]
      rfl

theorem hexDigits_fourDigits : ∀ n < 0x20,
    (fourDigits n).map hexDigit? = [some 0, some 0, some (n / 16), some (n % 16)] := by
  decide

theorem escape_of_escapeOf? : ∀ e ∈ shortEscapes, escaped? e.2 = some e.1 ∧ e.2 ≠ 'u' := by
  decide

theorem step?_hex_succ {c : Char} {d : Nat} (h : hexDigit? c = some d) (pieces : List Piece)
    (more value : Nat) :
    step? (.hex pieces (more + 1) value) c = some ([], .hex pieces more (value * 16 + d)) := by
  simp [step?, h]

theorem step?_hex_zero {c : Char} {d : Nat} (h : hexDigit? c = some d) (pieces : List Piece)
    (value : Nat) :
    step? (.hex pieces 0 value) c = some ([], .within (.unit (value * 16 + d) :: pieces)) := by
  simp [step?, h]

theorem tokensFrom_unit {n : Nat} (h : n < 0x20) (pieces : List Piece) (rest : List Char) :
    tokensFrom (.within pieces) ('\\' :: 'u' :: fourDigits n ++ rest) =
      tokensFrom (.within (.unit n :: pieces)) rest := by
  obtain ⟨a, more, hfour, ha, hmore⟩ := List.map_eq_cons_iff.mp (hexDigits_fourDigits n h)
  obtain ⟨b, more, rfl, hb, hmore⟩ := List.map_eq_cons_iff.mp hmore
  obtain ⟨c, more, rfl, hc, hmore⟩ := List.map_eq_cons_iff.mp hmore
  obtain ⟨d, more, rfl, hd, hmore⟩ := List.map_eq_cons_iff.mp hmore
  obtain rfl := List.map_eq_nil_iff.mp hmore
  have hvalue : ((0 * 16 + 0) * 16 + 0) * 16 + n / 16 = n / 16 := by omega
  have hunit : n / 16 * 16 + n % 16 = n := by omega
  have hslash : step? (.within pieces) '\\' = some ([], .escape pieces) := rfl
  have hletter : step? (.escape pieces) 'u' = some ([], .hex pieces 3 0) := rfl
  rw [hfour]
  change tokensFrom (.within pieces) ('\\' :: 'u' :: a :: b :: c :: d :: rest) = _
  rw [tokensFrom_of_silent hslash, tokensFrom_of_silent hletter,
    tokensFrom_of_silent (step?_hex_succ ha ..), tokensFrom_of_silent (step?_hex_succ hb ..),
    tokensFrom_of_silent (step?_hex_succ hc ..), tokensFrom_of_silent (step?_hex_zero hd ..),
    hvalue, hunit]

theorem tokensFrom_writeChar (c : Char) (pieces : List Piece) (rest : List Char) :
    tokensFrom (.within pieces) (writeChar c ++ rest) =
      tokensFrom (.within (pieceOf c :: pieces)) rest := by
  unfold writeChar pieceOf
  cases hescape : escapeOf? c with
  | some letter =>
    obtain ⟨e, he, rfl⟩ := Option.map_eq_some_iff.mp hescape
    obtain ⟨hescaped, hletter⟩ := escape_of_escapeOf? e (List.mem_of_find?_eq_some he)
    have hchar : e.1 = c := by simpa using List.find?_some he
    have hslash : step? (.within pieces) '\\' = some ([], .escape pieces) := rfl
    have hstep : step? (.escape pieces) e.2 = some ([], .within (.char c :: pieces)) := by
      rw [step?, if_neg hletter, hescaped, hchar]
      rfl
    have hnone : ¬ (some e.2 = none ∧ c.toNat < 0x20) := fun h => nomatch h.1
    rw [if_neg hnone]
    exact (tokensFrom_of_silent hslash _).trans (tokensFrom_of_silent hstep rest)
  | none =>
    simp only [true_and]
    split
    · rename_i hcontrol
      exact tokensFrom_unit hcontrol pieces rest
    · rename_i hcontrol
      have hquote : c ≠ '"' := by
        rintro rfl
        cases hescape
      have hslash : c ≠ '\\' := by
        rintro rfl
        cases hescape
      have hstep : step? (.within pieces) c = some ([], .within (.char c :: pieces)) := by
        rw [step?, if_neg hquote, if_neg hslash, if_neg hcontrol]
      exact tokensFrom_of_silent hstep rest

theorem tokensFrom_stringText (s : String) (rest : List Char) :
    tokensFrom .between (stringText (.text s) ++ rest) =
      (tokensFrom .between rest).map (.string (.text s) :: ·) := by
  have hchars : ∀ (cs : List Char) (pieces : List Piece) (rest : List Char),
      tokensFrom (.within pieces) (cs.flatMap writeChar ++ rest) =
        tokensFrom (.within ((cs.map pieceOf).reverse ++ pieces)) rest := by
    intro cs
    induction cs with
    | nil => exact fun pieces rest => rfl
    | cons c cs ih =>
      intro pieces rest
      rw [List.flatMap_cons, List.append_assoc, tokensFrom_writeChar, ih]
      simp
  have hopen : step? .between '"' = some ([], .within []) := rfl
  have hclose : step? (.within (s.toList.map pieceOf).reverse) '"' =
      some ([.string (.text s)], .between) := by
    rw [step?, if_pos rfl, List.reverse_reverse, contentOf, characters?_map_pieceOf]
    simp
  rw [stringText, contentText, List.append_assoc, List.cons_append, tokensFrom_of_silent hopen,
    hchars, List.append_nil, List.singleton_append, tokensFrom_of_step hclose]
  rfl

/-! ## Values -/

theorem tokensFrom_word {word rest : List Char} {value : Json} (hne : word ≠ [])
    (hword : ∀ c ∈ word, isBare c = true) (hvalue : bareValue? word = some value)
    (hrest : EndsWord rest) :
    tokensFrom .between (word ++ rest) = (tokensFrom .between rest).map (.scalar value :: ·) := by
  obtain ⟨c, word, rfl⟩ := List.exists_cons_of_ne_nil hne
  obtain ⟨hc, hword⟩ := List.forall_mem_cons.mp hword
  have hstart : step? .between c = some ([], .bare [c]) := start?_of_isBare hc
  rw [List.cons_append, tokensFrom_of_silent hstart]
  exact tokensFrom_bare [c] hword hrest hvalue

theorem tokensFrom_lineBreak (layout : Layout) (rest : List Char) :
    tokensFrom .between (layout.lineBreak ++ rest) = tokensFrom .between rest := by
  have hblank : ∀ n, tokensFrom .between (List.replicate n ' ' ++ rest) =
      tokensFrom .between rest := by
    intro n
    induction n with
    | zero => rfl
    | succ n ih => exact (tokensFrom_of_silent rfl _).trans ih
  cases layout with
  | compact => rfl
  | indented depth => exact (tokensFrom_of_silent rfl _).trans (hblank (2 * depth))

theorem tokensFrom_colon (layout : Layout) (rest : List Char) :
    tokensFrom .between (layout.colon ++ rest) = (tokensFrom .between rest).map (.colon :: ·) := by
  have hcolon : step? .between ':' = some ([.colon], .between) := rfl
  cases layout with
  | compact => exact tokensFrom_of_step hcolon rest
  | indented depth =>
    have hblank : tokensFrom .between (' ' :: rest) = tokensFrom .between rest :=
      tokensFrom_of_silent rfl rest
    rw [← hblank]
    exact tokensFrom_of_step hcolon (' ' :: rest)

theorem endsWord_cons {c : Char} (h : isBare c = false) (rest : List Char) : EndsWord (c :: rest) :=
  fun _ hc => Option.some.inj hc ▸ h

theorem endsWord_lineBreak (layout : Layout) {c : Char} (h : isBare c = false)
    (rest : List Char) : EndsWord (layout.lineBreak ++ c :: rest) := by
  cases layout with
  | compact => exact endsWord_cons h rest
  | indented depth => exact endsWord_cons (by decide) _

/-- The tokens of a value are found in the text of the value in every layout, if no bare word goes on
after it. -/
def IsScanned (v : Json) : Prop :=
  ∀ layout rest, EndsWord rest → tokensFrom .between (write layout v ++ rest) =
    (tokensFrom .between rest).map (tokensOf v ++ ·)

section

variable (layout outer : Layout) (rest : List Char)

theorem endsWord_writeItems (items : List Json) :
    EndsWord (writeItems layout items ++ (outer.lineBreak ++ ']' :: rest)) := by
  cases items with
  | nil => exact endsWord_lineBreak outer (by decide) rest
  | cons item items => exact endsWord_cons (by decide) _

theorem endsWord_writeMembers (members : List (JsonText × Json)) :
    EndsWord (writeMembers layout members ++ (outer.lineBreak ++ '\x7d' :: rest)) := by
  cases members with
  | nil => exact endsWord_lineBreak outer (by decide) rest
  | cons m members => exact endsWord_cons (by decide) _

theorem tokensFrom_writeItems {items : List Json} (h : ∀ v ∈ items, IsScanned v) :
    tokensFrom .between (writeItems layout items ++ (outer.lineBreak ++ ']' :: rest)) =
      (tokensFrom .between rest).map (tokensOfItems items ++ ·) := by
  induction items with
  | nil =>
    rw [writeItems, List.nil_append, tokensFrom_lineBreak]
    exact tokensFrom_of_step rfl rest
  | cons item items ih =>
    obtain ⟨hitem, hitems⟩ := List.forall_mem_cons.mp h
    have hcomma : step? .between ',' = some ([.comma], .between) := rfl
    rw [writeItems, tokensOfItems]
    simp only [List.append_assoc, List.cons_append]
    rw [tokensFrom_of_step hcomma, tokensFrom_lineBreak,
      hitem layout _ (endsWord_writeItems layout outer rest items), ih hitems]
    simp [Function.comp_def]

theorem tokensFrom_writeMember {m : JsonText × Json} (hkey : isText m.1 = true)
    (h : IsScanned m.2) (hrest : EndsWord rest) :
    tokensFrom .between (writeMember layout m ++ rest) =
      (tokensFrom .between rest).map (tokensOfMember m ++ ·) := by
  obtain ⟨key, v⟩ := m
  cases key with
  | unpaired literal => cases hkey
  | text name =>
    rw [writeMember, List.append_assoc, List.append_assoc, tokensFrom_stringText, tokensFrom_colon,
      h layout rest hrest, tokensOfMember]
    simp [Function.comp_def]

theorem tokensFrom_writeMembers {members : List (JsonText × Json)}
    (hkeys : ∀ m ∈ members, isText m.1 = true) (h : ∀ m ∈ members, IsScanned m.2) :
    tokensFrom .between (writeMembers layout members ++ (outer.lineBreak ++ '\x7d' :: rest)) =
      (tokensFrom .between rest).map (tokensOfMembers members ++ ·) := by
  induction members with
  | nil =>
    rw [writeMembers, List.nil_append, tokensFrom_lineBreak]
    exact tokensFrom_of_step rfl rest
  | cons m members ih =>
    obtain ⟨hkey, hkeys⟩ := List.forall_mem_cons.mp hkeys
    obtain ⟨hm, hmembers⟩ := List.forall_mem_cons.mp h
    have hcomma : step? .between ',' = some ([.comma], .between) := rfl
    rw [writeMembers, tokensOfMembers]
    simp only [List.append_assoc, List.cons_append]
    rw [tokensFrom_of_step hcomma, tokensFrom_lineBreak, tokensFrom_writeMember layout _ hkey hm
      (endsWord_writeMembers layout outer rest members), ih hkeys hmembers]
    simp [Function.comp_def]

end

theorem isScanned_scalar {v : Json} (hwrite : ∀ layout, write layout v = scalarText v)
    (htokens : tokensOf v = [.scalar v]) (hne : scalarText v ≠ [])
    (hword : (scalarText v).all isBare = true) (hvalue : bareValue? (scalarText v) = some v) :
    IsScanned v := by
  intro layout rest hrest
  rw [hwrite, htokens]
  exact tokensFrom_word hne (List.all_eq_true.mp hword) hvalue hrest

theorem Plain.isScanned {v : Json} (h : Plain v) : IsScanned v := by
  induction h with
  | null => exact isScanned_scalar (fun _ => rfl) rfl (List.cons_ne_nil _ _) rfl rfl
  | boolean value =>
    cases value with
    | false => exact isScanned_scalar (fun _ => rfl) rfl (List.cons_ne_nil _ _) rfl rfl
    | true => exact isScanned_scalar (fun _ => rfl) rfl (List.cons_ne_nil _ _) rfl rfl
  | integer value =>
    exact isScanned_scalar (fun _ => rfl) rfl (ofInt_toList_ne_nil value)
      (List.all_eq_true.mpr fun _ => isBare_of_mem_ofInt) (bareValue?_ofInt value)
  | string s => exact fun _ rest _ => tokensFrom_stringText s rest
  | @array items _ ih =>
    intro layout rest _
    have hopen : step? .between '[' = some ([.beginArray], .between) := rfl
    cases items with
    | nil =>
      have hclose : step? .between ']' = some ([.endArray], .between) := rfl
      change tokensFrom .between ('[' :: ']' :: rest) = _
      rw [tokensFrom_of_step hopen, tokensFrom_of_step hclose]
      simp [tokensOf, Function.comp_def]
    | cons item items =>
      obtain ⟨hitem, hitems⟩ := List.forall_mem_cons.mp ih
      rw [write, tokensOf]
      simp only [List.append_assoc, List.cons_append, List.nil_append]
      rw [tokensFrom_of_step hopen, tokensFrom_lineBreak,
        hitem _ _ (endsWord_writeItems _ layout rest items),
        tokensFrom_writeItems _ layout rest hitems]
      simp [Function.comp_def]
  | @object members hkeys _ ih =>
    intro layout rest _
    have hopen : step? .between '\x7b' = some ([.beginObject], .between) := rfl
    cases members with
    | nil =>
      have hclose : step? .between '\x7d' = some ([.endObject], .between) := rfl
      change tokensFrom .between ('\x7b' :: '\x7d' :: rest) = _
      rw [tokensFrom_of_step hopen, tokensFrom_of_step hclose]
      simp [tokensOf, Function.comp_def]
    | cons m members =>
      obtain ⟨hkey, hkeys⟩ := List.forall_mem_cons.mp hkeys
      obtain ⟨hm, hmembers⟩ := List.forall_mem_cons.mp ih
      rw [write, tokensOf]
      simp only [List.append_assoc, List.cons_append, List.nil_append]
      rw [tokensFrom_of_step hopen, tokensFrom_lineBreak,
        tokensFrom_writeMember _ _ hkey hm (endsWord_writeMembers _ layout rest members),
        tokensFrom_writeMembers _ layout rest hkeys hmembers]
      simp [Function.comp_def]

end IncrementalBackup.Json
