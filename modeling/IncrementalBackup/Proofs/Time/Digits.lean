import Mathlib.Algebra.Group.Nat.Defs
import IncrementalBackup.Proofs.Text.Decimal
import IncrementalBackup.Time.DateTime
import IncrementalBackup.Time.Rfc3339

/-!
# Digits in dates

A number that is written with a least width is read back by a reader of at most as many digits as are
written, whatever follows if it takes no more, and otherwise if no digit follows. A fraction of a
second is read back from the fewest digits that are exact.
-/

namespace IncrementalBackup

namespace Decimal

theorem isDigit_of_mem_padded {width n : Nat} {c : Char} (h : c ∈ padded width n) :
    isDigit c = true := by
  rcases List.mem_append.mp h with h | h
  · rw [(List.mem_replicate.mp h).2]
    rfl
  · exact isDigit_of_mem_toDigits h

theorem ofDigitChars_padded (width n : Nat) : Nat.ofDigitChars 10 (padded width n) 0 = n := by
  rw [padded, Nat.ofDigitChars_append, Nat.ofDigitChars_replicate_zero, Nat.mul_zero]
  exact Nat.ofDigitChars_ten_toDigits

theorem length_padded (width n : Nat) : (padded width n).length = max width (digits n).length := by
  rw [padded, List.length_append, List.length_replicate]
  omega

theorem length_padded_of_lt {width n : Nat} (hwidth : 0 < width) (hn : n < 10 ^ width) :
    (padded width n).length = width := by
  rw [length_padded]
  exact Nat.max_eq_left ((Nat.length_toDigits_le_iff (by decide) hwidth).mpr hn)

end Decimal

namespace Rfc3339

open Decimal

/-- What follows does not begin with a digit. -/
def EndsDigits (rest : List Char) : Prop := ∀ c ∈ rest.head?, isDigit c = false

theorem endsDigits_cons {c : Char} (h : isDigit c = false) (rest : List Char) :
    EndsDigits (c :: rest) := fun _ hc => Option.some.inj hc ▸ h

theorem digitsFrom_append {ds rest : List Char} (hds : ∀ c ∈ ds, isDigit c = true)
    {width : Nat} (hwidth : ds.length ≤ width) (hrest : ds.length = width ∨ EndsDigits rest)
    (acc : Nat) :
    digitsFrom width acc (ds ++ rest) = (Nat.ofDigitChars 10 ds acc, rest) := by
  induction ds generalizing width acc with
  | nil =>
    cases width with
    | zero => rfl
    | succ width =>
      have hrest : EndsDigits rest := hrest.resolve_left (Nat.succ_ne_zero width).symm
      cases rest with
      | nil => rfl
      | cons c rest =>
        have hc : digit? c = none := by
          have hnot := hrest c rfl
          rwa [isDigit, Option.isSome_eq_false_iff, Option.isNone_iff_eq_none] at hnot
        simp [digitsFrom, hc]
  | cons c ds ih =>
    obtain ⟨hc, hds⟩ := List.forall_mem_cons.mp hds
    cases width with
    | zero => cases hwidth
    | succ width =>
      rw [List.cons_append, digitsFrom, digit?_of_isDigit hc, Nat.ofDigitChars_cons, Nat.mul_comm 10]
      exact ih hds (Nat.le_of_succ_le_succ hwidth) (hrest.imp_left Nat.succ.inj) _

theorem number_append {ds rest : List Char} (hds : ∀ c ∈ ds, isDigit c = true) {least most : Nat}
    (hleast : least ≤ ds.length) (hmost : ds.length ≤ most)
    (hrest : ds.length = most ∨ EndsDigits rest) :
    number least most (ds ++ rest) = some (Nat.ofDigitChars 10 ds 0, rest) := by
  have hread : (ds ++ rest).length - rest.length = ds.length := by
    rw [List.length_append, Nat.add_sub_cancel]
  rw [number, digitsFrom_append hds hmost hrest]
  simp only [hread, if_neg (Nat.not_lt.mpr hleast)]

/-- A number of full width is read back whatever follows it. -/
theorem number_padded {least width n : Nat} (hleast : least ≤ width) (hwidth : 0 < width)
    (hn : n < 10 ^ width) (rest : List Char) :
    number least width (padded width n ++ rest) = some (n, rest) := by
  have hlength := length_padded_of_lt hwidth hn
  rw [number_append (fun c => isDigit_of_mem_padded) (hlength.symm ▸ hleast)
    (Nat.le_of_eq hlength) (.inl hlength), ofDigitChars_padded]

theorem number_padded_of_endsDigits {width n most : Nat} (hwidth : 0 < width) {rest : List Char}
    (hmost : (padded width n).length ≤ most) (hrest : EndsDigits rest) :
    number 1 most (padded width n ++ rest) = some (n, rest) := by
  have hleast : 1 ≤ (padded width n).length := by
    rw [length_padded]
    omega
  rw [number_append (fun c => isDigit_of_mem_padded) hleast hmost (.inr hrest),
    ofDigitChars_padded]

/-! ## What is read is bounded by the number of its digits -/

theorem digitsFrom_spec {width acc value : Nat} {cs rest : List Char}
    (h : digitsFrom width acc cs = (value, rest)) :
    ∃ ds, cs = ds ++ rest ∧ ds.length ≤ width ∧ value < (acc + 1) * 10 ^ ds.length := by
  induction width generalizing acc cs with
  | zero =>
    cases h
    exact ⟨[], rfl, Nat.le_refl 0, by simp⟩
  | succ width ih =>
    cases cs with
    | nil =>
      cases h
      exact ⟨[], rfl, Nat.zero_le _, by simp⟩
    | cons c cs =>
      rw [digitsFrom] at h
      cases hd : digit? c with
      | none =>
        rw [hd] at h
        cases h
        exact ⟨[], rfl, Nat.zero_le _, by simp⟩
      | some d =>
        rw [hd] at h
        obtain ⟨ds, rfl, hlength, hvalue⟩ := ih h
        have hdigit : d ≤ 9 := by
          unfold digit? at hd
          split at hd
          · cases hd
            omega
          · cases hd
        refine ⟨c :: ds, rfl, Nat.succ_le_succ hlength, Nat.lt_of_lt_of_le hvalue ?_⟩
        calc
          (acc * 10 + d + 1) * 10 ^ ds.length ≤ ((acc + 1) * 10) * 10 ^ ds.length :=
            Nat.mul_le_mul_right _ (by omega)
          _ = (acc + 1) * 10 ^ (c :: ds).length := by
            rw [List.length_cons, Nat.pow_succ, Nat.mul_assoc, Nat.mul_comm 10]

theorem number_spec {least most value : Nat} {cs rest : List Char}
    (h : number least most cs = some (value, rest)) :
    cs.length - rest.length ≤ most ∧ value < 10 ^ (cs.length - rest.length) := by
  unfold number at h
  dsimp only at h
  split at h
  · cases h
  · cases hread : digitsFrom most 0 cs with
    | mk read after =>
      rw [hread] at h
      cases h
      obtain ⟨ds, rfl, hlength, hvalue⟩ := digitsFrom_spec hread
      rw [List.length_append, Nat.add_sub_cancel]
      rw [Nat.zero_add, Nat.one_mul] at hvalue
      exact ⟨hlength, hvalue⟩

/-! ## Fractions -/

theorem fraction_lt {cs rest : List Char} {nanos : Nat} (h : fraction cs = some (nanos, rest)) :
    nanos < 10 ^ 9 := by
  unfold fraction at h
  split at h
  · rename_i cs
    obtain ⟨⟨value, after⟩, hnumber, hvalue⟩ := Option.bind_eq_some_iff.mp h
    cases hvalue
    obtain ⟨hlength, hlt⟩ := number_spec hnumber
    calc
      value * 10 ^ (9 - (cs.length - after.length)) <
          10 ^ (cs.length - after.length) * 10 ^ (9 - (cs.length - after.length)) :=
        Nat.mul_lt_mul_of_pos_right hlt (Nat.pow_pos (by decide))
      _ = 10 ^ 9 := by rw [← Nat.pow_add, Nat.add_sub_cancel' hlength]
  · cases h
    exact Nat.pow_pos (by decide)

theorem fraction_padded {width n : Nat} (hwidth : 0 < width) (hmost : width ≤ 9)
    (hn : n < 10 ^ width) {rest : List Char} (hrest : EndsDigits rest) :
    fraction ('.' :: (padded width n ++ rest)) = some (n * 10 ^ (9 - width), rest) := by
  have hlength := length_padded_of_lt hwidth hn
  have hread : (padded width n ++ rest).length - rest.length = width := by
    rw [List.length_append, Nat.add_sub_cancel, hlength]
  have hdrop : rest.dropWhile isDigit = rest := by
    cases rest with
    | nil => rfl
    | cons c rest => exact List.dropWhile_cons_of_neg (by simp [hrest c rfl])
  rw [fraction, number_padded_of_endsDigits hwidth (hlength.symm ▸ hmost) hrest]
  simp only [Option.bind_eq_bind, Option.bind_some, hread, hdrop]
  rfl

/-- The digits that are left out are zeros. -/
theorem fraction_fractionText {nanos : Nat} (h : nanos < 10 ^ 9) {rest : List Char}
    (hrest : EndsDigits rest) (hdot : rest.head? ≠ some '.') :
    fraction (DateTime.fractionText nanos ++ rest) = some (nanos, rest) := by
  unfold DateTime.fractionText
  split
  · rename_i hzero
    rw [hzero, List.nil_append, fraction.eq_def]
    split
    · exact absurd rfl hdot
    · rfl
  · split
    · rw [List.cons_append, fraction_padded (by decide) (by decide) (by omega) hrest]
      simp only [Option.some.injEq, Prod.mk.injEq, and_true]
      omega
    · split
      · rw [List.cons_append, fraction_padded (by decide) (by decide) (by omega) hrest]
        simp only [Option.some.injEq, Prod.mk.injEq, and_true]
        omega
      · rw [List.cons_append, fraction_padded (by decide) (by decide) h hrest]
        simp

end Rfc3339

end IncrementalBackup
