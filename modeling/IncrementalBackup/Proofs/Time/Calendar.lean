import IncrementalBackup.Time.Calendar

/-!
# The calendar in both directions

A day is found in an era of four centuries by its century, its four years, its year and the day in the
year; years begin in March, so only the last day of a year can be a leap day. Every day has a real
date, and the date leads back to the day.
-/

namespace IncrementalBackup.Calendar

/-- A day of an era: only every fourth year has a day 365, and of the last years of the centuries only
that of the last century. -/
structure IsDayOfEra (century four year day : Int) : Prop where
  centuries : 0 ≤ century ∧ century ≤ 3
  fours : 0 ≤ four ∧ four ≤ 24
  years : 0 ≤ year ∧ year ≤ 3
  days : 0 ≤ day ∧ day ≤ 365
  leap : day = 365 → year = 3 ∧ (four = 24 → century = 3)

/-- The days of an era up to a day of it. -/
def daysOfEra (century four year day : Int) : Int :=
  36524 * century + 1461 * four + 365 * year + day

theorem exists_isDayOfEra {days : Int} (hlow : 0 ≤ days) (hhigh : days < 146097) :
    ∃ century four year day, IsDayOfEra century four year day ∧
      days = daysOfEra century four year day := by
  obtain ⟨century, rest, hcentury, hrest, hlast, hdays⟩ : ∃ century rest : Int,
      (0 ≤ century ∧ century ≤ 3) ∧ (0 ≤ rest ∧ rest ≤ 36524) ∧ (rest = 36524 → century = 3) ∧
        days = 36524 * century + rest := by
    by_cases hlast : days = 146096
    · exact ⟨3, 36524, by omega⟩
    · exact ⟨days / 36524, days % 36524, by omega⟩
  -- The leap day is the one day that makes a fifth year begin.
  by_cases hleap : rest % 1461 = 1460
  · exact ⟨century, rest / 1461, 3, 365,
      ⟨hcentury, by omega, by omega, by omega, by omega⟩, by rw [daysOfEra]; omega⟩
  · exact ⟨century, rest / 1461, rest % 1461 / 365, rest % 1461 % 365,
      ⟨hcentury, by omega, by omega, by omega, by omega⟩, by rw [daysOfEra]; omega⟩

section

variable {century four year day era : Int}

/-- Without the days that leap years have more, every year has 365 days. -/
theorem IsDayOfEra.yearOfEra_eq (h : IsDayOfEra century four year day) {days : Int}
    (hdays : days = daysOfEra century four year day) :
    (days - days / 1460 + days / 36524 - days / 146096) / 365 =
      100 * century + 4 * four + year := by
  obtain ⟨hcentury, hfour, hyear, hday, hleap⟩ := h
  rw [daysOfEra] at hdays
  obtain ⟨rest, hrest⟩ : ∃ rest, rest = 1461 * four + 365 * year + day := ⟨_, rfl⟩
  have hcenturies : days / 36524 - days / 146096 = century := by
    by_cases hlast : day = 365 ∧ four = 24
    · omega
    · have hle : 0 ≤ rest ∧ rest ≤ 36523 := by omega
      have hsum : days = 36524 * century + rest := by omega
      omega
  have hfours : days / 1460 =
      25 * century + four + (24 * century + four + 365 * year + day) / 1460 := by omega
  omega

theorem IsDayOfEra.dayOfYear_eq (h : IsDayOfEra century four year day) :
    daysOfEra century four year day - (365 * (100 * century + 4 * four + year) +
      (100 * century + 4 * four + year) / 4 - (100 * century + 4 * four + year) / 100) = day := by
  obtain ⟨hcentury, hfour, hyear, hday, hleap⟩ := h
  rw [daysOfEra]
  omega

/-- The month of a day of a year, counted from March as month zero. -/
def monthFromMarch (day : Int) : Int := (5 * day + 2) / 153

theorem ofDays_eq (h : IsDayOfEra century four year day) (era : Int) :
    ofDays (era * 146097 + daysOfEra century four year day - 719468) =
      ⟨100 * century + 4 * four + year + era * 400 + (if monthFromMarch day < 10 then 0 else 1),
        (if monthFromMarch day < 10 then monthFromMarch day + 3
          else monthFromMarch day - 9).toNat,
        (day - (153 * monthFromMarch day + 2) / 5 + 1).toNat⟩ := by
  obtain ⟨hcentury, hfour, hyear, hday, hleap⟩ := id h
  have hdays : 0 ≤ daysOfEra century four year day ∧
      daysOfEra century four year day < 146097 := by
    rw [daysOfEra]
    omega
  have hmonth : 0 ≤ monthFromMarch day ∧ monthFromMarch day ≤ 11 := by
    rw [monthFromMarch]
    omega
  have hera : (era * 146097 + daysOfEra century four year day - 719468 + 719468) / 146097 = era := by
    omega
  have hrest : era * 146097 + daysOfEra century four year day - 719468 + 719468 - era * 146097 =
      daysOfEra century four year day := by omega
  have hwraps : (if monthFromMarch day < 10 then monthFromMarch day + 3
      else monthFromMarch day - 9) ≤ 2 ↔ ¬ monthFromMarch day < 10 := by
    split <;> omega
  simp only [ofDays, hera, hrest, h.yearOfEra_eq rfl, h.dayOfYear_eq]
  rw [← monthFromMarch]
  simp only [hwraps, ite_not]

theorem monthFromMarch_spec (hlow : 0 ≤ day) (hhigh : day ≤ 365) :
    (0 ≤ monthFromMarch day ∧ monthFromMarch day ≤ 11) ∧
      (153 * monthFromMarch day + 2) / 5 ≤ day := by
  rw [monthFromMarch]
  omega

theorem toDays_ofDays_of_isDayOfEra (h : IsDayOfEra century four year day) (era : Int) :
    toDays (ofDays (era * 146097 + daysOfEra century four year day - 719468)) =
      era * 146097 + daysOfEra century four year day - 719468 := by
  obtain ⟨hmonth, hstart⟩ := monthFromMarch_spec h.days.1 h.days.2
  have hyears := h.dayOfYear_eq
  obtain ⟨hcentury, hfour, hyear, hday, hleap⟩ := id h
  rw [ofDays_eq h]
  generalize monthFromMarch day = month at *
  generalize daysOfEra century four year day = days at *
  have hera : (100 * century + 4 * four + year + era * 400) / 400 = era := by omega
  have hinEra : 100 * century + 4 * four + year + era * 400 - era * 400 =
      100 * century + 4 * four + year := by omega
  have hinMonth : ((day - (153 * month + 2) / 5 + 1).toNat : Int) =
      day - (153 * month + 2) / 5 + 1 := by omega
  simp only [toDays]
  by_cases hlt : month < 10
  · have hlate : ¬ (month + 3).toNat ≤ 2 := by omega
    have hnumber : ((month + 3).toNat : Int) - 3 = month := by omega
    simp only [if_pos hlt, if_neg hlate, Int.add_zero, hera, hinEra, hnumber, hinMonth]
    omega
  · have hearly : (month - 9).toNat ≤ 2 := by omega
    have hnumber : ((month - 9).toNat : Int) + 9 = month := by omega
    simp only [if_neg hlt, if_pos hearly, Int.add_sub_cancel, hera, hinEra, hnumber, hinMonth]
    omega

/-- The year of a last day of February counts as the next one. -/
theorem IsDayOfEra.isLeap (h : IsDayOfEra century four year day) (hday : day = 365) (era : Int) :
    Calendar.isLeap (100 * century + 4 * four + year + era * 400 + 1) = true := by
  obtain ⟨hcentury, hfour, hyear, -, hleap⟩ := h
  obtain ⟨rfl, hlast⟩ := hleap hday
  simp only [Calendar.isLeap, Bool.and_eq_true, Bool.or_eq_true, decide_eq_true_eq]
  omega

/-- But for February, a month ends where the next one starts. -/
theorem isReal_ofDays_of_isDayOfEra (h : IsDayOfEra century four year day) (era : Int) :
    (ofDays (era * 146097 + daysOfEra century four year day - 719468)).isReal = true := by
  obtain ⟨hmonth, hstart⟩ := monthFromMarch_spec h.days.1 h.days.2
  have hleap := fun hday => h.isLeap hday era
  have hend : day < (153 * (monthFromMarch day + 1) + 2) / 5 ∧ day ≤ 365 := by
    have hday := h.days
    rw [monthFromMarch]
    omega
  rw [ofDays_eq h]
  generalize monthFromMarch day = month at *
  have hcases : month = 11 ∨ month = 0 ∨ month = 1 ∨ month = 2 ∨ month = 3 ∨ month = 4 ∨ month = 5 ∨
    month = 6 ∨ month = 7 ∨ month = 8 ∨ month = 9 ∨ month = 10 := by omega
  simp only [Date.isReal, Bool.and_eq_true, decide_eq_true_eq]
  rcases hcases with rfl | hcases
  · simp [daysInMonth]
    by_cases hday : day = 365
    · simp [hleap hday]
      omega
    · split <;> omega
  · rcases hcases with rfl | rfl | rfl | rfl | rfl | rfl | rfl | rfl | rfl | rfl | rfl
    all_goals
      simp [daysInMonth]
      omega

end

/-! ## All days -/

theorem exists_eq_daysOfEra (days : Int) :
    ∃ era century four year day, IsDayOfEra century four year day ∧
      days = era * 146097 + daysOfEra century four year day - 719468 := by
  obtain ⟨century, four, year, day, h, hdays⟩ := exists_isDayOfEra
    (Int.emod_nonneg (days + 719468) (by decide)) (Int.emod_lt_of_pos (days + 719468) (by decide))
  exact ⟨(days + 719468) / 146097, century, four, year, day, h, by omega⟩

theorem toDays_ofDays (days : Int) : toDays (ofDays days) = days := by
  obtain ⟨era, century, four, year, day, h, rfl⟩ := exists_eq_daysOfEra days
  exact toDays_ofDays_of_isDayOfEra h era

theorem isReal_ofDays (days : Int) : (ofDays days).isReal = true := by
  obtain ⟨era, century, four, year, day, h, rfl⟩ := exists_eq_daysOfEra days
  exact isReal_ofDays_of_isDayOfEra h era

/-- The first and the last day of the years that can be written. -/
theorem year_ofDays {days : Int} (hlow : -96465292 ≤ days) (hhigh : days ≤ 95026236) :
    -262143 ≤ (ofDays days).year ∧ (ofDays days).year ≤ 262142 := by
  obtain ⟨era, century, four, year, day, h, rfl⟩ := exists_eq_daysOfEra days
  have hmonth : monthFromMarch day < 10 ↔ day < 306 := by
    rw [monthFromMarch]
    omega
  rw [ofDays_eq h]
  simp only [hmonth]
  rw [daysOfEra] at hlow hhigh
  obtain ⟨hcentury, hfour, hyear, hday, -⟩ := h
  have hera : era ≤ 655 := by omega
  constructor
  · omega
  · by_cases hlast : era = 655
    · have hcentury : century ≤ 1 := by omega
      omega
    · omega

/-- The days of the years with four digits lie well within those that can be written. -/
theorem days_of_year {days : Int} (hlow : 0 ≤ (ofDays days).year) (hhigh : (ofDays days).year ≤ 9999) :
    -96465292 ≤ days ∧ days ≤ 95026236 := by
  obtain ⟨era, century, four, year, day, h, rfl⟩ := exists_eq_daysOfEra days
  rw [ofDays_eq h] at hlow hhigh
  dsimp only at hlow hhigh
  obtain ⟨hcentury, hfour, hyear, hday, -⟩ := h
  have hera : -1 ≤ era ∧ era ≤ 24 := by omega
  rw [daysOfEra]
  omega

end IncrementalBackup.Calendar
