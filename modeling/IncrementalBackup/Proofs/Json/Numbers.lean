import Mathlib.Data.List.TakeWhile
import IncrementalBackup.Json.Token
import IncrementalBackup.Proofs.Text.Decimal

/-!
# Whole numbers in JSON texts

The decimal text of a whole number is one bare word, and it is read as that number.
-/

namespace IncrementalBackup

namespace Decimal

/-- Only zero is written with a zero in front. -/
theorem head?_toDigits_ne {n : Nat} (h : 0 < n) : (Nat.toDigits 10 n).head? ≠ some '0' := by
  induction n using Nat.strongRecOn with
  | ind n ih =>
    by_cases hsmall : n < 10
    · have hdigits : ∀ m < 10, 0 < m → [m.digitChar].head? ≠ some '0' := by decide
      rw [Nat.toDigits_of_lt_base hsmall]
      exact hdigits n hsmall h
    · rw [Nat.toDigits_of_base_le (by decide) (by omega), List.head?_append]
      intro hhead
      have hrest := ih (n / 10) (by omega) (by omega)
      obtain ⟨c, cs, hcs⟩ := List.exists_cons_of_ne_nil (Nat.toDigits_ne_nil (n := n / 10) (b := 10))
      rw [hcs] at hhead hrest
      exact hrest hhead

theorem toDigits_ne_cons_cons (n : Nat) (c : Char) (cs : List Char) :
    Nat.toDigits 10 n ≠ '0' :: c :: cs := by
  intro h
  rcases Nat.eq_zero_or_pos n with rfl | hpos
  · simp at h
  · exact head?_toDigits_ne hpos (by rw [h]; rfl)

end Decimal

namespace Json

open Decimal

theorem valueOf_toDigits (n : Nat) : valueOf (Nat.toDigits 10 n) = n := by
  have hfold : ∀ (cs : List Char) (acc : Nat), (∀ c ∈ cs, isDigit c = true) →
      cs.foldl (fun n c => n * 10 + (digit? c).getD 0) acc = Nat.ofDigitChars 10 cs acc := by
    intro cs
    induction cs with
    | nil => exact fun acc _ => rfl
    | cons c cs ih =>
      intro acc hcs
      obtain ⟨hc, hrest⟩ := List.forall_mem_cons.mp hcs
      rw [List.foldl_cons, ih _ hrest, Nat.ofDigitChars_cons, digit?_of_isDigit hc,
        Option.getD_some, Nat.mul_comm acc 10]
  rw [valueOf, hfold _ _ fun c => isDigit_of_mem_toDigits]
  exact Nat.ofDigitChars_ten_toDigits

theorem leadingDigits_toDigits (n : Nat) :
    leadingDigits (Nat.toDigits 10 n) = (Nat.toDigits 10 n, []) := by
  have hall : ∀ c ∈ Nat.toDigits 10 n, isDigit c = true := fun c => isDigit_of_mem_toDigits
  rw [leadingDigits, List.takeWhile_eq_self_iff.mpr hall, List.dropWhile_eq_nil_iff.mpr hall]

/-- Digits without a zero in front are the number that they name; the sign is taken off before. -/
theorem number?_toDigits (n : Nat) : number? (Nat.toDigits 10 n) = some (.integer n) := by
  have hlead := leadingDigits_toDigits n
  have hvalue := valueOf_toDigits n
  have hsign : ∀ body, Nat.toDigits 10 n ≠ '-' :: body := by
    intro body hbody
    exact minus_not_mem_ofNat n (by rw [toList_ofNat, hbody]; exact List.mem_cons_self)
  have hzero := toDigits_ne_cons_cons n
  have hne : Nat.toDigits 10 n ≠ [] := Nat.toDigits_ne_nil
  generalize Nat.toDigits 10 n = word at *
  simp [number?, hlead, hvalue]

theorem number?_negative {n : Nat} (h : 0 < n) :
    number? ('-' :: Nat.toDigits 10 n) = some (.integer (-n)) := by
  have hlead := leadingDigits_toDigits n
  have hvalue := valueOf_toDigits n
  have hzero := toDigits_ne_cons_cons n
  have hne : Nat.toDigits 10 n ≠ [] := Nat.toDigits_ne_nil
  generalize Nat.toDigits 10 n = word at *
  simp [number?, hlead, hvalue, h.ne']

theorem number?_ofInt (n : Int) : number? (ofInt n).toList = some (.integer n) := by
  cases n with
  | ofNat n =>
    rw [ofInt, toList_ofNat]
    exact number?_toDigits n
  | negSucc n =>
    rw [toList_ofInt_negSucc]
    exact number?_negative (Nat.succ_pos n)

theorem isBare_of_isDigit {c : Char} (h : c.isDigit = true) : isBare c = true := by
  simp [isBare, Char.isAlphanum, h]

theorem isBare_of_mem_ofInt {n : Int} {c : Char} (h : c ∈ (ofInt n).toList) : isBare c = true := by
  have hdigits : ∀ m, c ∈ Nat.toDigits 10 m → isBare c = true := fun m hm =>
    isBare_of_isDigit (Nat.isDigit_of_mem_toDigits (by decide) (by decide) hm)
  cases n with
  | ofNat n =>
    rw [ofInt, toList_ofNat] at h
    exact hdigits n h
  | negSucc n =>
    rw [toList_ofInt_negSucc] at h
    rcases List.mem_cons.mp h with rfl | h
    · decide
    · exact hdigits (n + 1) h

theorem ofInt_toList_ne_nil (n : Int) : (ofInt n).toList ≠ [] := by
  cases n with
  | ofNat n =>
    rw [ofInt, toList_ofNat]
    exact Nat.toDigits_ne_nil
  | negSucc n =>
    rw [toList_ofInt_negSucc]
    exact List.cons_ne_nil _ _

/-- A number is no keyword, since keywords are no numbers. -/
theorem bareValue?_ofInt (n : Int) : bareValue? (ofInt n).toList = some (.integer n) := by
  have hnumber := number?_ofInt n
  have hkeyword : ∀ word, number? word = none → (ofInt n).toList ≠ word := by
    rintro word hnone rfl
    rw [hnumber] at hnone
    cases hnone
  rw [bareValue?, if_neg (hkeyword _ (by decide)), if_neg (hkeyword _ (by decide)),
    if_neg (hkeyword _ (by decide)), hnumber]

end Json

end IncrementalBackup
