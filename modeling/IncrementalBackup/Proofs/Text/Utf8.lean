import IncrementalBackup.Text.Utf8

/-!
# What the decoder reads

The parts of a byte string cover it: each character that is read is there with the bytes it is
written with, and each invalid part takes up at least one byte. So a byte string that is a text is
that text written, and the characters of one byte are read where they stand and nowhere else.
-/

namespace IncrementalBackup.Utf8

inductive Reads : List UInt8 → List (Option Char) → Prop
  | nil : Reads [] []
  | char (c : Char) {bytes : List UInt8} {rest : List (Option Char)} (h : Reads bytes rest) :
      Reads (encodeChar c ++ bytes) (some c :: rest)
  | invalid {bad bytes : List UInt8} {rest : List (Option Char)} (hbad : bad ≠ [])
      (h : Reads bytes rest) : Reads (bad ++ bytes) (none :: rest)

/-- The bytes `tail` complete a character that has begun; its number is `v`. -/
inductive Completes : Pending → List UInt8 → Nat → Prop
  | last {value low high : Nat} {b : UInt8} (hlow : low ≤ b.toNat) (hhigh : b.toNat ≤ high) :
      Completes ⟨value, 0, low, high⟩ [b] (value * 64 + (b.toNat - 0x80))
  | next {value missing low high v : Nat} {b : UInt8} {tail : List UInt8} (hlow : low ≤ b.toNat)
      (hhigh : b.toNat ≤ high)
      (h : Completes ⟨value * 64 + (b.toNat - 0x80), missing, 0x80, 0xBF⟩ tail v) :
      Completes ⟨value, missing + 1, low, high⟩ (b :: tail) v

theorem Completes.of_zero {p : Pending} {tail : List UInt8} {v : Nat} (h : Completes p tail v)
    (hmissing : p.missing = 0) :
    ∃ b, p.low ≤ b.toNat ∧ b.toNat ≤ p.high ∧ tail = [b] ∧
      v = p.value * 64 + (b.toNat - 0x80) := by
  cases h with
  | last hlow hhigh => exact ⟨_, hlow, hhigh, rfl, rfl⟩
  | next => cases hmissing

theorem Completes.of_succ {p : Pending} {tail : List UInt8} {v missing : Nat}
    (h : Completes p tail v) (hmissing : p.missing = missing + 1) :
    ∃ b rest, p.low ≤ b.toNat ∧ b.toNat ≤ p.high ∧ tail = b :: rest ∧
      Completes ⟨p.value * 64 + (b.toNat - 0x80), missing, 0x80, 0xBF⟩ rest v := by
  cases h with
  | last => cases hmissing
  | next hlow hhigh h =>
    obtain rfl := Nat.succ.inj hmissing
    exact ⟨_, _, hlow, hhigh, rfl, h⟩

/-- A byte that does not go on is read again as a first byte. -/
theorem parts_some_of_not {p : Pending} {b : UInt8} (rest : List UInt8)
    (h : ¬ (p.low ≤ b.toNat ∧ b.toNat ≤ p.high)) :
    parts (some p) (b :: rest) = none :: parts none (b :: rest) := by
  rw [parts.eq_4, if_neg h, parts.eq_3]

theorem parts_some_cases (p : Pending) (bytes : List UInt8) :
    (∃ tail rest v, bytes = tail ++ rest ∧ Completes p tail v ∧
      parts (some p) bytes = some (Char.ofNat v) :: parts none rest) ∨
    (∃ bad rest, bytes = bad ++ rest ∧ parts (some p) bytes = none :: parts none rest) := by
  induction bytes generalizing p with
  | nil => exact .inr ⟨[], [], rfl, rfl⟩
  | cons b bytes ih =>
    by_cases hb : p.low ≤ b.toNat ∧ b.toNat ≤ p.high
    · obtain ⟨value, missing, low, high⟩ := p
      cases missing with
      | zero =>
        refine .inl ⟨[b], bytes, _, rfl, .last hb.1 hb.2, ?_⟩
        rw [parts, if_pos hb]
      | succ missing =>
        have hparts : parts (some ⟨value, missing + 1, low, high⟩) (b :: bytes) =
            parts (some ⟨value * 64 + (b.toNat - 0x80), missing, 0x80, 0xBF⟩) bytes := by
          rw [parts, if_pos hb]
        rw [hparts]
        rcases ih ⟨value * 64 + (b.toNat - 0x80), missing, 0x80, 0xBF⟩ with
          ⟨tail, rest, v, rfl, htail, heq⟩ | ⟨bad, rest, rfl, heq⟩
        · exact .inl ⟨b :: tail, rest, v, rfl, .next hb.1 hb.2 htail, heq⟩
        · exact .inr ⟨b :: bad, rest, rfl, heq⟩
    · exact .inr ⟨[], b :: bytes, rfl, parts_some_of_not bytes hb⟩

theorem toUInt8_eq {n : Nat} {b : UInt8} (h : n = b.toNat) : n.toUInt8 = b := by
  rw [h]
  exact UInt8.ofNat_toNat

theorem toNat_ofNat {n : Nat} (h : n < 0xD800 ∨ (0xDFFF < n ∧ n < 0x110000)) :
    (Char.ofNat n).toNat = n := by
  have hvalid : n.isValidChar := h
  rw [Char.ofNat, dif_pos hvalid]
  rfl

theorem encodeChar_of_whole {b : UInt8} {c : Char} (h : lead b = .whole c) :
    encodeChar c = [b] := by
  unfold lead at h
  dsimp only at h
  split at h
  · rename_i hb
    obtain rfl := Lead.whole.inj h
    rw [encodeChar, toNat_ofNat (by omega), if_pos hb, toUInt8_eq rfl]
  · repeat' split at h
    all_goals exact Lead.noConfusion h

/-- A first byte of a longer character begins one of two, three or four bytes. The bounds of the
second byte leave out what is too small, too great or no character. -/
theorem lead_more_cases {b : UInt8} {p : Pending} (h : lead b = .more p) :
    (0xC2 ≤ b.toNat ∧ b.toNat < 0xE0 ∧ p = ⟨b.toNat - 0xC0, 0, 0x80, 0xBF⟩) ∨
    (0xE0 ≤ b.toNat ∧ b.toNat < 0xF0 ∧ ∃ low high, p = ⟨b.toNat - 0xE0, 1, low, high⟩ ∧
      0x80 ≤ low ∧ high ≤ 0xBF ∧ (b.toNat = 0xE0 → low = 0xA0) ∧ (b.toNat = 0xED → high = 0x9F)) ∨
    (0xF0 ≤ b.toNat ∧ b.toNat < 0xF5 ∧ ∃ low high, p = ⟨b.toNat - 0xF0, 2, low, high⟩ ∧
      0x80 ≤ low ∧ high ≤ 0xBF ∧ (b.toNat = 0xF0 → low = 0x90) ∧
        (b.toNat = 0xF4 → high = 0x8F)) := by
  unfold lead at h
  dsimp only at h
  generalize b.toNat = n at h ⊢
  repeat' split at h
  all_goals first | exact Lead.noConfusion h | obtain rfl := Lead.more.inj h
  · exact .inl ⟨by omega, by omega, rfl⟩
  · exact .inr (.inl ⟨by omega, by omega, 0xA0, 0xBF, by simp [*], by omega⟩)
  · exact .inr (.inl ⟨by omega, by omega, 0x80, 0x9F, by simp [*], by omega⟩)
  · exact .inr (.inl ⟨by omega, by omega, 0x80, 0xBF, rfl, by omega⟩)
  · exact .inr (.inr ⟨by omega, by omega, 0x90, 0xBF, by simp [*], by omega⟩)
  · exact .inr (.inr ⟨by omega, by omega, 0x80, 0xBF, rfl, by omega⟩)
  · exact .inr (.inr ⟨by omega, by omega, 0x80, 0x8F, by simp [*], by omega⟩)

/-- A first byte and the bytes that complete its character are the bytes of that character. -/
theorem encodeChar_of_completes {b : UInt8} {p : Pending} {tail : List UInt8} {v : Nat}
    (hlead : lead b = .more p) (h : Completes p tail v) :
    encodeChar (Char.ofNat v) = b :: tail := by
  rcases lead_more_cases hlead with ⟨hmin, hmax, rfl⟩ |
    ⟨hmin, hmax, low, high, rfl, hlow, hhigh, hfirst, hlast⟩ |
    ⟨hmin, hmax, low, high, rfl, hlow, hhigh, hfirst, hlast⟩
  · obtain ⟨x, hx, hx', rfl, hv⟩ := h.of_zero rfl
    dsimp only at hx hx' hv
    rw [encodeChar, toNat_ofNat (by omega), if_neg (by omega), if_pos (by omega),
      toUInt8_eq (b := b) (by omega), toUInt8_eq (b := x) (by omega)]
  · obtain ⟨x, rest, hx, hx', rfl, hrest⟩ := h.of_succ rfl
    obtain ⟨y, hy, hy', rfl, hv⟩ := hrest.of_zero rfl
    dsimp only at hx hx' hy hy' hv
    rw [encodeChar, toNat_ofNat (by omega), if_neg (by omega), if_neg (by omega),
      if_pos (by omega), toUInt8_eq (b := b) (by omega), toUInt8_eq (b := x) (by omega),
      toUInt8_eq (b := y) (by omega)]
  · obtain ⟨x, rest, hx, hx', rfl, hrest⟩ := h.of_succ rfl
    obtain ⟨y, rest, hy, hy', rfl, hlast'⟩ := hrest.of_succ rfl
    obtain ⟨z, hz, hz', rfl, hv⟩ := hlast'.of_zero rfl
    dsimp only at hx hx' hy hy' hz hz' hv
    rw [encodeChar, toNat_ofNat (by omega), if_neg (by omega), if_neg (by omega),
      if_neg (by omega), toUInt8_eq (b := b) (by omega), toUInt8_eq (b := x) (by omega),
      toUInt8_eq (b := y) (by omega), toUInt8_eq (b := z) (by omega)]

theorem reads_parts (bytes : List UInt8) : Reads bytes (parts none bytes) := by
  induction hn : bytes.length using Nat.strongRecOn generalizing bytes with
  | ind n ih =>
    cases bytes with
    | nil => exact .nil
    | cons b bytes =>
      have hrest : ∀ rest : List UInt8, rest.length ≤ bytes.length → Reads rest (parts none rest) :=
        fun rest hle => ih rest.length (by simp only [List.length_cons] at hn; omega) rest rfl
      rw [parts.eq_3]
      cases hlead : lead b with
      | whole c =>
        have hread := Reads.char c (hrest bytes (Nat.le_refl _))
        rwa [encodeChar_of_whole hlead] at hread
      | invalid => exact .invalid (List.cons_ne_nil b []) (hrest bytes (Nat.le_refl _))
      | more p =>
        rcases parts_some_cases p bytes with ⟨tail, rest, v, rfl, htail, heq⟩ | ⟨bad, rest, rfl, heq⟩
        · have hread := Reads.char (Char.ofNat v) (hrest rest (by simp))
          rw [encodeChar_of_completes hlead htail] at hread
          dsimp only
          rwa [heq]
        · dsimp only
          rw [heq]
          exact .invalid (List.cons_ne_nil b bad) (hrest rest (by simp))

theorem Reads.eq_flatMap {bytes : List UInt8} {cs : List Char} (h : Reads bytes (cs.map some)) :
    bytes = cs.flatMap encodeChar := by
  induction cs generalizing bytes with
  | nil =>
    cases h
    rfl
  | cons c cs ih =>
    cases h with
    | char _ h => rw [List.flatMap_cons, ← ih h]

theorem Reads.mem_of_mem {bytes : List UInt8} {ps : List (Option Char)} {c : Char} {b : UInt8}
    (h : Reads bytes ps) (hc : some c ∈ ps) (hb : b ∈ encodeChar c) : b ∈ bytes := by
  induction h with
  | nil => cases hc
  | char d h ih =>
    rcases List.mem_cons.mp hc with hcd | hc
    · obtain rfl := Option.some.inj hcd
      exact List.mem_append_left _ hb
    · exact List.mem_append_right _ (ih hc)
  | invalid hbad h ih =>
    rcases List.mem_cons.mp hc with hcd | hc
    · cases hcd
    · exact List.mem_append_right _ (ih hc)

theorem eq_map_some_of_mapM_id {ps : List (Option Char)} {cs : List Char}
    (h : ps.mapM id = some cs) : ps = cs.map some := by
  induction ps generalizing cs with
  | nil =>
    obtain rfl : cs = [] := by simpa using h.symm
    rfl
  | cons part ps ih =>
    cases part with
    | none => simp at h
    | some c =>
      cases hps : ps.mapM id with
      | none => simp [hps] at h
      | some cs' =>
        obtain rfl : c :: cs' = cs := by simpa [hps] using h
        rw [List.map_cons, ih hps]

theorem encode_of_decode? {bytes : List UInt8} {s : String} (h : decode? bytes = some s) :
    encode s = bytes := by
  obtain ⟨cs, hcs, rfl⟩ := Option.map_eq_some_iff.mp h
  have hread := reads_parts bytes
  rw [eq_map_some_of_mapM_id hcs] at hread
  rw [encode, String.toList_ofList, hread.eq_flatMap]

theorem encode_lossy_of_isValid {bytes : List UInt8} (h : isValid bytes = true) :
    encode (lossy bytes) = bytes := by
  obtain ⟨s, hs⟩ := Option.isSome_iff_exists.mp h
  rw [← encode_of_decode? hs, lossy_encode]

theorem map_getD_of_not_mem {ps : List (Option Char)} {c : Char}
    (h : none ∉ ps ∨ c ∉ ps.map (·.getD c)) : (ps.map (·.getD c)).map some = ps := by
  rw [List.map_map]
  refine (List.map_congr_left fun part hpart => ?_).trans (List.map_id _)
  cases part with
  | none =>
    rcases h with h | h
    · exact absurd hpart h
    · exact absurd (List.mem_map.mpr ⟨none, hpart, rfl⟩) h
  | some d => rfl

/-- Bytes that are shown without a replacement character are the bytes of what is shown. -/
theorem encode_lossy_of_not_mem {bytes : List UInt8} (h : replacement ∉ (lossy bytes).toList) :
    encode (lossy bytes) = bytes := by
  rw [lossy, String.toList_ofList] at h
  have hread := reads_parts bytes
  rw [← map_getD_of_not_mem (.inr h)] at hread
  rw [encode, lossy, String.toList_ofList, ← hread.eq_flatMap]

theorem mem_lossy {bytes : List UInt8} {c : Char} (h : c ∈ (lossy bytes).toList)
    (hc : c ≠ replacement) : some c ∈ parts none bytes := by
  rw [lossy, String.toList_ofList] at h
  obtain ⟨part, hpart, rfl⟩ := List.mem_map.mp h
  cases part with
  | none => exact absurd rfl hc
  | some c => exact hpart

theorem toNat_toUInt8 (n : Nat) : n.toUInt8.toNat = n % 256 := by
  simp [Nat.toUInt8]

/-- A byte below 0x80 is the whole of a character. -/
theorem encodeChar_of_mem {c : Char} {b : UInt8} (h : b ∈ encodeChar c) (hb : b.toNat < 0x80) :
    encodeChar c = [b] := by
  have hvalid : c.toNat < 0xD800 ∨ (0xDFFF < c.toNat ∧ c.toNat < 0x110000) := c.valid
  unfold encodeChar at h ⊢
  dsimp only at h ⊢
  by_cases hone : c.toNat < 0x80
  · rw [if_pos hone] at h ⊢
    rw [List.mem_singleton.mp h]
  · rw [if_neg hone] at h
    exfalso
    -- Every byte of a longer character is 0x80 or more.
    by_cases htwo : c.toNat < 0x800
    · rw [if_pos htwo] at h
      simp only [List.mem_cons, List.not_mem_nil, or_false] at h
      rcases h with rfl | rfl <;> rw [toNat_toUInt8] at hb <;> omega
    · rw [if_neg htwo] at h
      by_cases hthree : c.toNat < 0x10000
      · rw [if_pos hthree] at h
        simp only [List.mem_cons, List.not_mem_nil, or_false] at h
        rcases h with rfl | rfl | rfl <;> rw [toNat_toUInt8] at hb <;> omega
      · rw [if_neg hthree] at h
        simp only [List.mem_cons, List.not_mem_nil, or_false] at h
        rcases h with rfl | rfl | rfl | rfl <;> rw [toNat_toUInt8] at hb <;> omega

/-! ## Bytes below 0x80 between others -/

theorem lead_of_lt_ascii {b : UInt8} (hb : b.toNat < 0x80) :
    lead b = .whole (Char.ofNat b.toNat) := by
  rw [lead, if_pos hb]

theorem low_of_lead {b : UInt8} {p : Pending} (h : lead b = .more p) : 0x80 ≤ p.low := by
  rcases lead_more_cases h with ⟨-, -, rfl⟩ | ⟨-, -, low, high, rfl, hlow, -⟩ |
    ⟨-, -, low, high, rfl, hlow, -⟩
  · exact Nat.le_refl 0x80
  · exact hlow
  · exact hlow

/-- A byte below 0x80 ends whatever stands in front of it. -/
theorem parts_append_cons {b : UInt8} (hb : b.toNat < 0x80) (before after : List UInt8)
    (state : Option Pending) (hstate : ∀ p, state = some p → 0x80 ≤ p.low) :
    parts state (before ++ b :: after) =
      parts state before ++ some (Char.ofNat b.toNat) :: parts none after := by
  induction before generalizing state with
  | nil =>
    have hnone : parts none (b :: after) = some (Char.ofNat b.toNat) :: parts none after := by
      rw [parts.eq_3, lead_of_lt_ascii hb]
    cases state with
    | none => exact hnone
    | some p =>
      have hp := hstate p rfl
      rw [List.nil_append, parts_some_of_not _ (by omega), hnone]
      rfl
  | cons a before ih =>
    have hrest : parts none (before ++ b :: after) =
        parts none before ++ some (Char.ofNat b.toNat) :: parts none after := by
      refine ih none ?_
      intro p hp
      cases hp
    have hnone : parts none (a :: before ++ b :: after) =
        parts none (a :: before) ++ some (Char.ofNat b.toNat) :: parts none after := by
      rw [List.cons_append, parts.eq_3, parts.eq_3]
      cases hlead : lead a with
      | whole c => exact congrArg (some c :: ·) hrest
      | invalid => exact congrArg (none :: ·) hrest
      | more p =>
        refine ih (some p) ?_
        intro q hq
        obtain rfl := Option.some.inj hq
        exact low_of_lead hlead
    cases state with
    | none => exact hnone
    | some p =>
      by_cases ha : p.low ≤ a.toNat ∧ a.toNat ≤ p.high
      · rw [List.cons_append, parts.eq_4, parts.eq_4, if_pos ha, if_pos ha]
        cases p.missing with
        | zero =>
          dsimp only
          rw [hrest, List.cons_append]
        | succ missing =>
          refine ih (some _) ?_
          intro q hq
          obtain rfl := Option.some.inj hq
          exact Nat.le_refl _
      · rw [parts_some_of_not before ha, List.cons_append, parts_some_of_not _ ha,
          ← List.cons_append, hnone]
        rfl

theorem isValid_iff {bytes : List UInt8} : isValid bytes = true ↔ none ∉ parts none bytes := by
  rw [isValid, decode?]
  constructor
  · intro h hnone
    obtain ⟨s, hs⟩ := Option.isSome_iff_exists.mp h
    obtain ⟨cs, hcs, -⟩ := Option.map_eq_some_iff.mp hs
    rw [eq_map_some_of_mapM_id hcs] at hnone
    simp at hnone
  · intro h
    rw [← map_getD_of_not_mem (c := replacement) (.inl h), mapM_id_map_some]
    rfl

theorem isValid_append_cons {b : UInt8} (hb : b.toNat < 0x80) {before after : List UInt8} :
    isValid (before ++ b :: after) = true ↔ isValid before = true ∧ isValid after = true := by
  simp [isValid_iff, parts_append_cons hb before after none nofun]

theorem isValid_encode (s : String) : isValid (encode s) = true := by
  rw [isValid, decode?_encode]
  rfl

end IncrementalBackup.Utf8
