import IncrementalBackup.Proofs.Time.Calendar
import IncrementalBackup.Proofs.Time.Digits

/-!
# Moments are written and read back

The lax reader gives only moments of the years that can be written, with a leap second only at the end
of a minute. Every such moment is read back from its text, since the calendar gives a real date for
its day and the text has each number in full width.
-/

namespace IncrementalBackup

/-- A date with a time that can be written. A leap second follows second 59. -/
structure DateTime.IsMoment (d : DateTime) : Prop where
  first : firstSecond ≤ d.seconds
  last : d.seconds ≤ lastSecond
  nanos : d.nanos < 2000000000
  leap : 1000000000 ≤ d.nanos → d.seconds % 60 = 59

namespace Rfc3339

open Decimal Text

/-! ## What is read -/

/-- The moment of some fields; `leap` tells whether they name a leap second. -/
theorem Fields.dateTime?_eq_some {f : Fields} {d : DateTime} (h : f.dateTime? = some d) :
    ∃ leap : Nat, (leap = 0 ∨ (leap = 1 ∧ f.second = 60)) ∧
      d.seconds = Calendar.toDays f.date * 86400 + f.hour * 3600 + f.minute * 60 +
        (f.second - leap) - f.offset ∧
      d.nanos = leap * 1000000000 + f.nanos ∧
      DateTime.firstSecond ≤ d.seconds ∧ d.seconds ≤ DateTime.lastSecond := by
  have hleap : (if f.second = 60 then 1 else 0) = 0 ∨
      ((if f.second = 60 then 1 else 0) = 1 ∧ f.second = 60) := by
    split
    · exact .inr ⟨rfl, ‹f.second = 60›⟩
    · exact .inl rfl
  unfold Fields.dateTime? at h
  split at h
  · dsimp only at h
    generalize (if f.second = 60 then 1 else 0) = leap at h hleap
    split at h
    · rename_i hrange
      cases h
      exact ⟨leap, hleap, rfl, rfl, hrange⟩
    · cases h
  · cases h

theorem Fields.isMoment {f : Fields} {d : DateTime} (hnanos : f.nanos < 10 ^ 9)
    (hoffset : f.offset % 60 = 0) (h : f.dateTime? = some d) : d.IsMoment := by
  obtain ⟨leap, hleap, hseconds, hd, hfirst, hlast⟩ := dateTime?_eq_some h
  exact ⟨hfirst, hlast, by omega, by omega⟩

theorem offset_emod {style : OffsetStyle} {cs rest : List Char} {seconds : Int}
    (h : offset style cs = some (seconds, rest)) : seconds % 60 = 0 := by
  unfold offset at h
  split at h
  · cases h
    rfl
  · cases h
    rfl
  · simp only [Option.bind_eq_bind, Option.bind_eq_some_iff] at h
    obtain ⟨⟨negative, _⟩, -, ⟨hours, _⟩, -, _, -, ⟨minutes, _⟩, -, h⟩ := h
    split at h
    · cases h
    · cases h
      split <;> omega

theorem laxOffset_emod {cs rest : List Char} {seconds : Int}
    (h : laxOffset cs = some (seconds, rest)) : seconds % 60 = 0 := by
  unfold laxOffset at h
  split at h
  · split at h
    · cases h
      rfl
    · exact offset_emod h
  · exact offset_emod h

theorem isMoment_of_lax? {text : String} {d : DateTime} (h : lax? text = some d) : d.IsMoment := by
  simp only [lax?, Option.bind_eq_bind, Option.bind_eq_some_iff] at h
  obtain ⟨⟨fields, rest⟩, hfields, h⟩ := h
  simp only [laxFields, Option.bind_eq_bind, Option.bind_eq_some_iff] at hfields
  obtain ⟨_, -, _, -, _, -, _, -, _, -, _, -, _, -, _, -, _, -, _, -, _, -, ⟨nanos, _⟩, hnanos,
    ⟨seconds, _⟩, hoffset, hfields⟩ := hfields
  cases hfields
  split at h
  · exact Fields.isMoment (fraction_lt hnanos) (laxOffset_emod hoffset) h
  · cases h

/-! ## What is written -/

theorem isBlank_of_isDigit {c : Char} (h : isDigit c = true) : isBlank c = false := by
  obtain ⟨d, hd⟩ := Option.isSome_iff_exists.mp h
  unfold digit? at hd
  split at hd
  · simp [isBlank, blankRanges]
    omega
  · cases hd

theorem trimStart_cons {c : Char} (h : isBlank c = false) (rest : List Char) :
    trimStart (c :: rest) = c :: rest := List.dropWhile_cons_of_neg (by simp [h])

theorem exists_padded_eq_cons {width : Nat} (hwidth : 0 < width) (n : Nat) :
    ∃ c cs, padded width n = c :: cs ∧ isDigit c = true := by
  have hlength := length_padded width n
  cases hpadded : padded width n with
  | nil =>
    rw [hpadded, List.length_nil] at hlength
    omega
  | cons c cs => exact ⟨c, cs, rfl, isDigit_of_mem_padded (hpadded ▸ List.mem_cons_self)⟩

theorem trimStart_padded {width : Nat} (hwidth : 0 < width) (n : Nat) (rest : List Char) :
    trimStart (padded width n ++ rest) = padded width n ++ rest := by
  obtain ⟨c, cs, hpadded, hc⟩ := exists_padded_eq_cons hwidth n
  rw [hpadded]
  exact trimStart_cons (isBlank_of_isDigit hc) _

theorem shortNumber_padded {n : Nat} (h : n < 100) (rest : List Char) :
    shortNumber (padded 2 n ++ rest) = some (n, rest) := by
  rw [shortNumber, trimStart_padded (by decide), number_padded (by decide) (by decide) h]

theorem spacedLiteral_cons {c : Char} (h : isBlank c = false) (rest : List Char) :
    spacedLiteral c (c :: rest) = some ((), rest) := by
  rw [spacedLiteral, trimStart_cons h, literal, if_pos rfl]

theorem trimStart_yearText (year : Int) (rest : List Char) :
    trimStart (DateTime.yearText year ++ rest) = DateTime.yearText year ++ rest := by
  unfold DateTime.yearText
  split
  · exact trimStart_padded (by decide) _ _
  · split
    · exact trimStart_cons (by decide) _
    · exact trimStart_cons (by decide) _

/-- The year is set off from the month by a sign that is no digit. -/
theorem signedYear_yearText (year : Int) (rest : List Char) :
    signedYear (DateTime.yearText year ++ '-' :: rest) = some (year, '-' :: rest) := by
  have hends : EndsDigits ('-' :: rest) := endsDigits_cons (by decide) rest
  have hmost : ∀ n, (padded 4 n).length ≤ (padded 4 n ++ '-' :: rest).length := fun n => by
    rw [List.length_append]
    exact Nat.le_add_right _ _
  unfold DateTime.yearText
  split
  · rename_i hrange
    obtain ⟨c, cs, hpadded, hc⟩ := exists_padded_eq_cons (by decide : 0 < 4) year.toNat
    have hnumber : number 1 4 (c :: cs ++ '-' :: rest) = some (year.toNat, '-' :: rest) := by
      rw [← hpadded]
      exact number_padded (by decide) (by decide) (by omega) _
    rw [hpadded, List.cons_append, signedYear.eq_def]
    split
    · rename_i heq
      cases heq
      cases hc
    · rename_i heq
      cases heq
      cases hc
    · rw [List.cons_append] at hnumber
      rw [hnumber]
      change some ((year.toNat : Int), '-' :: rest) = _
      rw [Int.toNat_of_nonneg hrange.1]
  · split
    · have habs : -(year.natAbs : Int) = year := by omega
      rw [List.cons_append, signedYear, number_padded_of_endsDigits (by decide) (hmost _) hends]
      change some (-(year.natAbs : Int), '-' :: rest) = _
      rw [habs]
    · have hnonneg : (year.toNat : Int) = year := by omega
      rw [List.cons_append, signedYear, number_padded_of_endsDigits (by decide) (hmost _) hends]
      change some ((year.toNat : Int), '-' :: rest) = _
      rw [hnonneg]

theorem shortDate_ofDays (days : Int) :
    (Calendar.ofDays days).month < 100 ∧ (Calendar.ofDays days).day < 100 := by
  have hreal := Calendar.isReal_ofDays days
  have hlength : Calendar.daysInMonth (Calendar.ofDays days).year (Calendar.ofDays days).month ≤ 31 := by
    unfold Calendar.daysInMonth
    split
    · split <;> decide
    all_goals decide
  simp only [Calendar.Date.isReal, Bool.and_eq_true, decide_eq_true_eq] at hreal
  omega

/-- The fields of a moment, in universal time. -/
def fieldsOf (d : DateTime) : Fields where
  date := d.date
  hour := d.secondOfDay / 3600
  minute := d.secondOfDay / 60 % 60
  second := d.secondOfDay % 60 + d.nanos / 1000000000
  nanos := d.nanos % 1000000000
  offset := 0

theorem secondOfDay_lt (d : DateTime) : d.secondOfDay < 86400 := by
  rw [DateTime.secondOfDay, DateTime.secondsPerDay]
  omega

theorem shortFields_of_isMoment {d : DateTime} (h : d.IsMoment) :
    d.date.month < 100 ∧ d.date.day < 100 ∧ d.secondOfDay / 3600 < 100 ∧
      d.secondOfDay / 60 % 60 < 100 ∧ d.secondOfDay % 60 + d.nanos / 1000000000 < 100 := by
  have hsecondOfDay := secondOfDay_lt d
  have hnanos := h.nanos
  obtain ⟨hmonth, hday⟩ := shortDate_ofDays (d.seconds / DateTime.secondsPerDay)
  refine ⟨hmonth, hday, ?_⟩
  omega

theorem fraction_subsecond (d : DateTime) :
    fraction (DateTime.fractionText (d.nanos % 1000000000) ++ ['Z']) =
      some (d.nanos % 1000000000, ['Z']) :=
  fraction_fractionText (Nat.mod_lt _ (by decide)) (endsDigits_cons (by decide) []) (by decide)

theorem laxFields_rfc3339 {d : DateTime} (h : d.IsMoment) :
    laxFields d.rfc3339.toList = some (fieldsOf d, []) := by
  obtain ⟨hmonth, hday, hhour, hminute, hsecond⟩ := shortFields_of_isMoment h
  have hoffset : laxOffset (trimStart ['Z']) = some (0, []) := by decide
  rw [DateTime.rfc3339, String.toList_ofList, DateTime.dateText, DateTime.timeText]
  simp only [List.append_assoc, List.cons_append]
  rw [laxFields, trimStart_yearText, signedYear_yearText]
  simp only [Option.bind_eq_bind, Option.bind_some,
    spacedLiteral_cons (show isBlank '-' = false by decide),
    spacedLiteral_cons (show isBlank ':' = false by decide), dateEnd, shortNumber_padded hmonth,
    shortNumber_padded hday, shortNumber_padded hhour, shortNumber_padded hminute,
    shortNumber_padded hsecond, fraction_subsecond, hoffset]
  rfl

theorem dateTime?_fieldsOf {d : DateTime} (h : d.IsMoment) : (fieldsOf d).dateTime? = some d := by
  have hsecondOfDay := secondOfDay_lt d
  have hnanos := h.nanos
  have hminuteEnd := h.leap
  have hsum : (d.secondOfDay : Int) = d.seconds % 86400 := by
    rw [DateTime.secondOfDay, DateTime.secondsPerDay]
    omega
  have hleap : (if (fieldsOf d).second = 60 then 1 else 0) = d.nanos / 1000000000 := by
    change (if d.secondOfDay % 60 + d.nanos / 1000000000 = 60 then 1 else 0) = _
    split <;> omega
  have hdate : Calendar.toDays (fieldsOf d).date = d.seconds / 86400 := Calendar.toDays_ofDays _
  have hseconds : Calendar.toDays (fieldsOf d).date * DateTime.secondsPerDay +
      (fieldsOf d).hour * 3600 + (fieldsOf d).minute * 60 +
      ((fieldsOf d).second - (d.nanos / 1000000000 : Nat)) - (fieldsOf d).offset = d.seconds := by
    rw [hdate, DateTime.secondsPerDay]
    simp only [fieldsOf]
    omega
  have hfields : (fieldsOf d).date.isReal ∧ firstYear ≤ (fieldsOf d).date.year ∧
      (fieldsOf d).date.year ≤ lastYear ∧ (fieldsOf d).hour < 24 ∧ (fieldsOf d).minute < 60 ∧
      (fieldsOf d).second ≤ 60 := by
    have hfirst := h.first
    have hlast := h.last
    rw [DateTime.firstSecond] at hfirst
    rw [DateTime.lastSecond] at hlast
    obtain ⟨hlow, hhigh⟩ := Calendar.year_ofDays
      (by omega : -96465292 ≤ d.seconds / 86400) (by omega)
    refine ⟨Calendar.isReal_ofDays _, hlow, hhigh, ?_⟩
    simp only [fieldsOf]
    omega
  rw [Fields.dateTime?, if_pos hfields]
  simp only [hleap, hseconds, if_pos (And.intro h.first h.last)]
  change some (DateTime.mk d.seconds (d.nanos / 1000000000 * 1000000000 + d.nanos % 1000000000)) = _
  rw [Nat.div_add_mod']

/-- A moment is read back from its text. -/
theorem lax?_rfc3339 {d : DateTime} (h : d.IsMoment) : lax? d.rfc3339 = some d := by
  simp only [lax?, laxFields_rfc3339 h, Option.bind_eq_bind, Option.bind_some]
  exact dateTime?_fieldsOf h

end Rfc3339

end IncrementalBackup
