import IncrementalBackup.Comparison

/-!
# UTF-8

Characters as bytes and bytes as characters. The decoder reads byte by byte: between characters, or
within a character of which some bytes are still missing. A byte that cannot go on ends the part
read so far, which is invalid as a whole, and is read again as a first byte.
-/

namespace IncrementalBackup.Utf8

def encodeChar (c : Char) : List UInt8 :=
  let v := c.toNat
  if v < 0x80 then [v.toUInt8]
  else if v < 0x800 then [(0xC0 + v / 64).toUInt8, (0x80 + v % 64).toUInt8]
  else if v < 0x10000 then
    [(0xE0 + v / 4096).toUInt8, (0x80 + v / 64 % 64).toUInt8, (0x80 + v % 64).toUInt8]
  else
    [(0xF0 + v / 262144).toUInt8, (0x80 + v / 4096 % 64).toUInt8, (0x80 + v / 64 % 64).toUInt8,
      (0x80 + v % 64).toUInt8]

def encode (s : String) : List UInt8 := s.toList.flatMap encodeChar

/-- A character of which `missing + 1` bytes are still to come, the next one within bounds. -/
structure Pending where
  value : Nat
  missing : Nat
  low : Nat
  high : Nat

/-- What a first byte starts: a whole character, a character with more bytes, or nothing. -/
inductive Lead where
  | whole (c : Char)
  | more (p : Pending)
  | invalid

def lead (b : UInt8) : Lead :=
  let n := b.toNat
  if n < 0x80 then .whole (Char.ofNat n)
  else if n < 0xC2 then .invalid
  else if n < 0xE0 then .more ⟨n - 0xC0, 0, 0x80, 0xBF⟩
  else if n = 0xE0 then .more ⟨0, 1, 0xA0, 0xBF⟩
  else if n = 0xED then .more ⟨0xD, 1, 0x80, 0x9F⟩
  else if n < 0xF0 then .more ⟨n - 0xE0, 1, 0x80, 0xBF⟩
  else if n = 0xF0 then .more ⟨0, 2, 0x90, 0xBF⟩
  else if n < 0xF4 then .more ⟨n - 0xF0, 2, 0x80, 0xBF⟩
  else if n = 0xF4 then .more ⟨4, 2, 0x80, 0x8F⟩
  else .invalid

/-- The parts of a byte string: characters, and `none` for each longest invalid part. -/
def parts : Option Pending → List UInt8 → List (Option Char)
  | none, [] => []
  | some _, [] => [none]
  | none, b :: rest =>
    match lead b with
    | .whole c => some c :: parts none rest
    | .more p => parts (some p) rest
    | .invalid => none :: parts none rest
  | some p, b :: rest =>
    if p.low ≤ b.toNat ∧ b.toNat ≤ p.high then
      let value := p.value * 64 + (b.toNat - 0x80)
      match p.missing with
      | 0 => some (Char.ofNat value) :: parts none rest
      | more + 1 => parts (some ⟨value, more, 0x80, 0xBF⟩) rest
    else
      none :: match lead b with
        | .whole c => some c :: parts none rest
        | .more p => parts (some p) rest
        | .invalid => none :: parts none rest

def replacement : Char := '\uFFFD'

/-- Bytes as text, every invalid part shown as one replacement character. -/
def lossy (bytes : List UInt8) : String :=
  String.ofList ((parts none bytes).map (·.getD replacement))

def decode? (bytes : List UInt8) : Option String :=
  ((parts none bytes).mapM id).map String.ofList

def isValid (bytes : List UInt8) : Bool := (decode? bytes).isSome

/-! ## Reading back what was written -/

private theorem toNat_byte {n : Nat} (hn : n < 256) : n.toUInt8.toNat = n := by
  simp [Nat.toUInt8, Nat.mod_eq_of_lt hn]

theorem parts_encodeChar_append (c : Char) (rest : List UInt8) :
    parts none (encodeChar c ++ rest) = some c :: parts none rest := by
  have hof : Char.ofNat c.toNat = c := Char.ofNat_toNat c
  have hvalid : c.toNat < 0xD800 ∨ (0xDFFF < c.toNat ∧ c.toNat < 0x110000) := c.valid
  generalize hv : c.toNat = v at hof hvalid
  rw [encodeChar, hv]
  split
  · rename_i h1
    rw [List.cons_append, List.nil_append, parts, lead]
    simp only [toNat_byte (by omega : v < 256), if_pos h1, hof]
  · split
    · rename_i h1 h2
      have hl : (0xC0 + v / 64).toUInt8.toNat = 0xC0 + v / 64 := toNat_byte (by omega)
      have hn : (0x80 + v % 64).toUInt8.toNat = 0x80 + v % 64 := toNat_byte (by omega)
      have hlead : lead (0xC0 + v / 64).toUInt8 = .more ⟨v / 64, 0, 0x80, 0xBF⟩ := by
        simp only [lead, hl]
        repeat rw [if_neg (by omega)]
        rw [if_pos (by omega)]
        simp
      simp only [List.cons_append, List.nil_append, parts, hlead, hn]
      rw [if_pos (by omega)]
      have : v / 64 * 64 + (0x80 + v % 64 - 0x80) = v := by omega
      rw [this, hof]
    · split
      · rename_i h1 h2 h3
        have hl : (0xE0 + v / 4096).toUInt8.toNat = 0xE0 + v / 4096 := toNat_byte (by omega)
        have hm : (0x80 + v / 64 % 64).toUInt8.toNat = 0x80 + v / 64 % 64 := toNat_byte (by omega)
        have hn : (0x80 + v % 64).toUInt8.toNat = 0x80 + v % 64 := toNat_byte (by omega)
        have hlead : ∃ low high, lead (0xE0 + v / 4096).toUInt8 = .more ⟨v / 4096, 1, low, high⟩ ∧
            low ≤ 0x80 + v / 64 % 64 ∧ 0x80 + v / 64 % 64 ≤ high := by
          simp only [lead, hl]
          rw [if_neg (by omega), if_neg (by omega), if_neg (by omega)]
          split
          · exact ⟨0xA0, 0xBF, by simp; omega, by omega, by omega⟩
          · split
            · exact ⟨0x80, 0x9F, by simp; omega, by omega, by omega⟩
            · rw [if_pos (by omega)]
              exact ⟨0x80, 0xBF, by simp, by omega, by omega⟩
        obtain ⟨low, high, hlead, hlow, hhigh⟩ := hlead
        simp only [List.cons_append, List.nil_append, parts, hlead, hm, hn]
        rw [if_pos ⟨hlow, hhigh⟩, if_pos (by omega)]
        have : (v / 4096 * 64 + (0x80 + v / 64 % 64 - 0x80)) * 64 + (0x80 + v % 64 - 0x80) = v := by
          omega
        rw [this, hof]
      · rename_i h1 h2 h3
        have hl : (0xF0 + v / 262144).toUInt8.toNat = 0xF0 + v / 262144 := toNat_byte (by omega)
        have hk : (0x80 + v / 4096 % 64).toUInt8.toNat = 0x80 + v / 4096 % 64 :=
          toNat_byte (by omega)
        have hm : (0x80 + v / 64 % 64).toUInt8.toNat = 0x80 + v / 64 % 64 := toNat_byte (by omega)
        have hn : (0x80 + v % 64).toUInt8.toNat = 0x80 + v % 64 := toNat_byte (by omega)
        have hlead : ∃ low high, lead (0xF0 + v / 262144).toUInt8 = .more ⟨v / 262144, 2, low, high⟩ ∧
            low ≤ 0x80 + v / 4096 % 64 ∧ 0x80 + v / 4096 % 64 ≤ high := by
          simp only [lead, hl]
          rw [if_neg (by omega), if_neg (by omega), if_neg (by omega), if_neg (by omega),
            if_neg (by omega), if_neg (by omega)]
          split
          · exact ⟨0x90, 0xBF, by simp; omega, by omega, by omega⟩
          · split
            · exact ⟨0x80, 0xBF, by simp, by omega, by omega⟩
            · rw [if_pos (by omega)]
              exact ⟨0x80, 0x8F, by simp; omega, by omega, by omega⟩
        obtain ⟨low, high, hlead, hlow, hhigh⟩ := hlead
        simp only [List.cons_append, List.nil_append, parts, hlead, hk, hm, hn]
        rw [if_pos ⟨hlow, hhigh⟩, if_pos (by omega), if_pos (by omega)]
        have : ((v / 262144 * 64 + (0x80 + v / 4096 % 64 - 0x80)) * 64 +
            (0x80 + v / 64 % 64 - 0x80)) * 64 + (0x80 + v % 64 - 0x80) = v := by
          omega
        rw [this, hof]

theorem parts_encode (s : String) : parts none (encode s) = s.toList.map some := by
  rw [encode]
  induction s.toList with
  | nil => rfl
  | cons c cs ih => rw [List.flatMap_cons, parts_encodeChar_append, ih, List.map_cons]

theorem lossy_encode (s : String) : lossy (encode s) = s := by
  simp [lossy, parts_encode, Function.comp_def]

theorem mapM_id_map_some (cs : List Char) : (cs.map some).mapM id = some cs := by
  induction cs with
  | nil => rfl
  | cons c cs ih => simp [ih]

theorem decode?_encode (s : String) : decode? (encode s) = some s := by
  rw [decode?, parts_encode, mapM_id_map_some, Option.map_some, String.ofList_toList]

theorem encode_injective {a b : String} (h : encode a = encode b) : a = b := by
  rw [← lossy_encode a, h, lossy_encode]

/-! ## The order of texts -/

def compare (a b : String) : Ordering := compareBy encode compareBytes a b

instance : Std.TransCmp compare := inferInstanceAs (Std.TransCmp (compareBy encode compareBytes))

instance : Std.LawfulEqCmp compare := lawfulEqCmp_of_part encode (fun _ _ => encode_injective)

end IncrementalBackup.Utf8
