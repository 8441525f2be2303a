import IncrementalBackup.Proofs.Time.Moment

/-!
# Backup times are read back

A backup time is given as whole milliseconds or as a text of RFC 3339. The digits of a number are all
read, so they are milliseconds; a date has a hyphen, so it is not. The strict reader finds the fields
of a moment in its text if the year has four digits.
-/

namespace IncrementalBackup

namespace Decimal

theorem le_ofDigitChars (ds : List Char) (acc : Nat) : acc ≤ Nat.ofDigitChars 10 ds acc := by
  induction ds generalizing acc with
  | nil => exact Nat.le_refl acc
  | cons c ds ih =>
    rw [Nat.ofDigitChars_cons]
    exact Nat.le_trans (by omega) (ih _)

theorem readDigits_eq_ok {ds : List Char} (hds : ∀ c ∈ ds, isDigit c = true) {limit acc : Nat}
    {beyond : ReadError} (h : Nat.ofDigitChars 10 ds acc ≤ limit) :
    readDigits limit beyond acc ds = .ok (Nat.ofDigitChars 10 ds acc) := by
  induction ds generalizing acc with
  | nil => rfl
  | cons c ds ih =>
    obtain ⟨hc, hds⟩ := List.forall_mem_cons.mp hds
    rw [Nat.ofDigitChars_cons, Nat.mul_comm 10] at h ⊢
    rw [readDigits, digit?_of_isDigit hc]
    exact (if_pos (Nat.le_trans (le_ofDigitChars ds _) h)).trans (ih hds h)

theorem isDigit_of_readDigits {cs : List Char} {limit acc n : Nat} {beyond : ReadError}
    (h : readDigits limit beyond acc cs = .ok n) : ∀ c ∈ cs, isDigit c = true := by
  induction cs generalizing acc with
  | nil => nofun
  | cons c cs ih =>
    rw [readDigits] at h
    cases hc : digit? c with
    | none =>
      rw [hc] at h
      cases h
    | some d =>
      rw [hc] at h
      dsimp only at h
      split at h
      · exact List.forall_mem_cons.mpr ⟨by rw [isDigit, hc]; rfl, ih h⟩
      · cases h

/-- What begins with a digit has no sign in front. -/
theorem readNat_eq_readDigits {c : Char} (h : isDigit c = true) (limit : Nat) (cs : List Char) :
    readNat limit (c :: cs) = readDigits limit .tooLarge 0 (c :: cs) := by
  have hplus : c ≠ '+' := by
    rintro rfl
    exact absurd h (by decide)
  rw [readNat.eq_def]
  split
  · rename_i heq
    cases heq
  · rename_i heq
    cases heq
    exact absurd rfl hplus
  · rename_i heq
    cases heq
    exact absurd rfl hplus
  · rfl

theorem readNat_ofNat {limit n : Nat} (h : n ≤ limit) : readNat limit (ofNat n).toList = .ok n := by
  have hdigits : ∀ c ∈ Nat.toDigits 10 n, isDigit c = true := fun c => isDigit_of_mem_toDigits
  have hvalue : Nat.ofDigitChars 10 (Nat.toDigits 10 n) 0 = n := Nat.ofDigitChars_ten_toDigits
  obtain ⟨c, cs, hcs⟩ := List.exists_cons_of_ne_nil (Nat.toDigits_ne_nil (n := n) (b := 10))
  rw [toList_ofNat]
  rw [hcs] at hdigits hvalue ⊢
  rw [readNat_eq_readDigits (hdigits c List.mem_cons_self),
    readDigits_eq_ok hdigits (hvalue.symm ▸ h), hvalue]

end Decimal

namespace Text

theorem trimStart_eq_self {cs : List Char} (h : ∀ c ∈ cs.head?, isBlank c = false) :
    trimStart cs = cs := by
  cases cs with
  | nil => rfl
  | cons c cs => exact Rfc3339.trimStart_cons (h c rfl) cs

theorem trim_eq_self {cs : List Char} (hfirst : ∀ c ∈ cs.head?, isBlank c = false)
    (hlast : ∀ c ∈ cs.getLast?, isBlank c = false) : trim cs = cs := by
  rw [← List.head?_reverse] at hlast
  rw [trim, trimStart_eq_self hfirst, trimStart_eq_self hlast, List.reverse_reverse]

end Text

namespace Rfc3339

open Decimal Text

theorem literal_cons (c : Char) (rest : List Char) : literal c (c :: rest) = some ((), rest) :=
  if_pos rfl

theorem number_short {n : Nat} (h : n < 100) (rest : List Char) :
    number 2 2 (padded 2 n ++ rest) = some (n, rest) := number_padded (by decide) (by decide) h rest

theorem hyphen_mem_rfc3339 (d : DateTime) : '-' ∈ d.rfc3339.toList := by
  rw [DateTime.rfc3339, String.toList_ofList, DateTime.dateText]
  simp

theorem getLast?_rfc3339 (d : DateTime) : d.rfc3339.toList.getLast? = some 'Z' := by
  rw [DateTime.rfc3339, String.toList_ofList]
  exact List.getLast?_concat

/-! ## Years of four digits -/

section

variable {d : DateTime} (hfirst : 0 ≤ d.date.year) (hlast : d.date.year ≤ 9999)

include hfirst hlast

theorem strictFields_rfc3339 (h : d.IsMoment) :
    strictFields d.rfc3339.toList = some (fieldsOf d, []) := by
  obtain ⟨hmonth, hday, hhour, hminute, hsecond⟩ := shortFields_of_isMoment h
  have hyear : d.date.year.toNat < 10 ^ 4 := by omega
  have hdate : (⟨d.date.year.toNat, d.date.month, d.date.day⟩ : Calendar.Date) = d.date := by
    rw [Int.toNat_of_nonneg hfirst]
  have hoffset : offset .colon ['Z'] = some (0, []) := rfl
  rw [DateTime.rfc3339, String.toList_ofList, DateTime.dateText, DateTime.timeText,
    DateTime.yearText, if_pos ⟨hfirst, hlast⟩]
  simp only [List.append_assoc, List.cons_append]
  simp only [strictFields, Option.bind_eq_bind, Option.bind_some, literal_cons, dateEnd,
    number_padded (Nat.le_refl 4) (by decide) hyear, number_short hmonth, number_short hday,
    number_short hhour, number_short hminute, number_short hsecond, fraction_subsecond, hoffset]
  rw [hdate]
  rfl

theorem strict?_rfc3339 (h : d.IsMoment) : strict? d.rfc3339 = some d := by
  simp only [strict?, strictFields_rfc3339 hfirst hlast h, Option.bind_eq_bind, Option.bind_some]
  exact dateTime?_fieldsOf h

theorem head?_rfc3339 : ∀ c ∈ d.rfc3339.toList.head?, isDigit c = true := by
  obtain ⟨c, cs, hpadded, hc⟩ := exists_padded_eq_cons (by decide : 0 < 4) d.date.year.toNat
  rw [DateTime.rfc3339, String.toList_ofList, DateTime.dateText, DateTime.yearText,
    if_pos ⟨hfirst, hlast⟩, hpadded]
  intro c' hc'
  cases hc'
  exact hc

theorem trim_rfc3339 : trim d.rfc3339.toList = d.rfc3339.toList := by
  apply trim_eq_self
  · intro c hc
    exact isBlank_of_isDigit (head?_rfc3339 hfirst hlast c hc)
  · rw [getLast?_rfc3339]
    intro c hc
    cases hc
    decide

theorem readNat_rfc3339 (limit : Nat) : ∃ e, readNat limit d.rfc3339.toList = .error e := by
  have hdigit := head?_rfc3339 hfirst hlast
  have hhyphen := hyphen_mem_rfc3339 d
  cases htext : d.rfc3339.toList with
  | nil => exact ⟨.empty, rfl⟩
  | cons c cs =>
    rw [htext] at hdigit hhyphen
    rw [readNat_eq_readDigits (hdigit c rfl)]
    cases hread : readDigits limit .tooLarge 0 (c :: cs) with
    | error e => exact ⟨e, rfl⟩
    | ok n =>
      -- All that is read are digits, and the hyphen is none.
      exact absurd (isDigit_of_readDigits hread _ hhyphen) (by decide)

theorem timestamp?_rfc3339 (h : d.IsMoment) :
    timestamp? d.rfc3339 = some d.toInstant := by
  obtain ⟨e, herror⟩ := readNat_rfc3339 hfirst hlast (UInt64.size - 1)
  simp only [timestamp?, trim_rfc3339 hfirst hlast, herror, String.ofList_toList,
    strict?_rfc3339 hfirst hlast h, Option.map_some]

end

/-! ## Milliseconds -/

theorem trim_ofNat (n : Nat) : trim (ofNat n).toList = (ofNat n).toList := by
  have hblank : ∀ c ∈ (ofNat n).toList, isBlank c = false := by
    intro c hc
    rw [toList_ofNat] at hc
    exact isBlank_of_isDigit (isDigit_of_mem_toDigits hc)
  exact trim_eq_self (fun c hc => hblank c (List.mem_of_mem_head? hc))
    (fun c hc => hblank c (List.mem_of_mem_getLast? hc))

/-- All numbers of milliseconds are read back. -/
theorem timestamp?_ofNat (millis : UInt64) :
    timestamp? (ofNat millis.toNat) = some (.ofMillis millis) := by
  have hread : readNat (UInt64.size - 1) (ofNat millis.toNat).toList = .ok millis.toNat :=
    readNat_ofNat (Nat.le_pred_of_lt millis.toNat_lt)
  simp only [timestamp?, trim_ofNat, hread]
  rw [Nat.toUInt64_eq, UInt64.ofNat_toNat]

end Rfc3339

/-! ## Instants -/

namespace Instant

/-- The year of the universal time scale. -/
def year (t : Instant) : Int := (Calendar.ofDays (t.seconds / DateTime.secondsPerDay)).year

end Instant

namespace DateTime

theorem ofInstant?_eq_some {t : Instant} {d : DateTime} :
    ofInstant? t = some d ↔
      d = ⟨t.seconds, t.subsecond⟩ ∧ firstSecond ≤ t.seconds ∧ t.seconds ≤ lastSecond := by
  unfold ofInstant?
  split
  · rename_i hrange
    simp only [Option.some.injEq, hrange, and_true]
    exact eq_comm
  · rename_i hrange
    simp only [reduceCtorEq, hrange, and_false]

theorem toInstant_seconds (t : Instant) : toInstant ⟨t.seconds, t.subsecond⟩ = t := by
  have hsum : t.seconds * Instant.perSecond + t.subsecond = t.nanoseconds := by
    rw [Instant.seconds, Instant.subsecond, Instant.perSecond]
    omega
  rw [toInstant, Instant.ofSeconds, hsum]

theorem subsecond_lt (t : Instant) : t.subsecond < 1000000000 := by
  rw [Instant.subsecond, Instant.perSecond]
  omega

theorem isMoment_ofInstant? {t : Instant} {d : DateTime} (h : ofInstant? t = some d) :
    d.IsMoment := by
  obtain ⟨rfl, hfirst, hlast⟩ := ofInstant?_eq_some.mp h
  have hnanos := subsecond_lt t
  exact ⟨hfirst, hlast, Nat.lt_trans hnanos (by decide),
    fun hleap => absurd hnanos (Nat.not_lt.mpr hleap)⟩

theorem ofInstant?_of_year {t : Instant} (hfirst : 0 ≤ t.year) (hlast : t.year ≤ 9999) :
    ofInstant? t = some ⟨t.seconds, t.subsecond⟩ := by
  obtain ⟨hlow, hhigh⟩ := Calendar.days_of_year hfirst hlast
  refine ofInstant?_eq_some.mpr ⟨rfl, ?_⟩
  rw [secondsPerDay] at hlow hhigh
  rw [firstSecond, lastSecond]
  omega

/-- The date of an instant is read back as this instant. -/
theorem timestamp?_ofInstant? {t : Instant} {d : DateTime} (h : ofInstant? t = some d)
    (hfirst : 0 ≤ d.date.year) (hlast : d.date.year ≤ 9999) :
    Rfc3339.timestamp? d.rfc3339 = some t := by
  rw [Rfc3339.timestamp?_rfc3339 hfirst hlast (isMoment_ofInstant? h),
    (ofInstant?_eq_some.mp h).1, toInstant_seconds]

end DateTime

end IncrementalBackup
