import IncrementalBackup.Text.Decimal

/-!
# Decimal texts

Different numbers have different decimal texts. The texts are made of digits and a sign, so none of
them has an underscore in it, and a bound on a number bounds the length of its text.
-/

namespace IncrementalBackup.Decimal

theorem digit?_of_isDigit {c : Char} (h : isDigit c = true) : digit? c = some (c.toNat - '0'.toNat) := by
  obtain ⟨d, hd⟩ := Option.isSome_iff_exists.mp h
  unfold digit? at hd ⊢
  split at hd
  · rename_i hrange
    rw [if_pos hrange]
    rfl
  · cases hd

theorem isDigit_of_mem_toDigits {n : Nat} {c : Char} (h : c ∈ Nat.toDigits 10 n) :
    isDigit c = true := by
  have hdigit := Nat.isDigit_of_mem_toDigits (by decide) (by decide) h
  obtain ⟨hlow, hhigh⟩ := Char.isDigit_iff_toNat.mp hdigit
  rw [isDigit, digit?, if_pos ⟨hlow, hhigh⟩]
  rfl

theorem toList_ofNat (n : Nat) : (ofNat n).toList = Nat.toDigits 10 n := String.toList_ofList

theorem toList_ofInt_negSucc (n : Nat) :
    (ofInt (.negSucc n)).toList = '-' :: Nat.toDigits 10 (n + 1) := by
  rw [ofInt, String.toList_append, toList_ofNat]
  rfl

theorem ofNat_inj {m n : Nat} : ofNat m = ofNat n ↔ m = n := by
  constructor
  · intro h
    have hdigits : Nat.toDigits 10 m = Nat.toDigits 10 n := String.ofList_inj.mp h
    calc
      m = Nat.ofDigitChars 10 (Nat.toDigits 10 m) 0 := Nat.ofDigitChars_ten_toDigits.symm
      _ = Nat.ofDigitChars 10 (Nat.toDigits 10 n) 0 := by rw [hdigits]
      _ = n := Nat.ofDigitChars_ten_toDigits
  · rintro rfl
    rfl

theorem minus_not_mem_ofNat (n : Nat) : '-' ∉ (ofNat n).toList := by
  rw [toList_ofNat]
  intro h
  exact absurd (Nat.isDigit_of_mem_toDigits (by decide) (by decide) h) (by decide)

/-- The sign tells a negative number from the others. -/
theorem ofInt_ofNat_ne_negSucc (m n : Nat) : ofInt (.ofNat m) ≠ ofInt (.negSucc n) := by
  intro h
  apply minus_not_mem_ofNat m
  change '-' ∈ (ofInt (.ofNat m)).toList
  rw [h, toList_ofInt_negSucc]
  exact List.mem_cons_self

theorem ofInt_inj {m n : Int} : ofInt m = ofInt n ↔ m = n := by
  constructor
  · intro h
    cases m with
    | ofNat m =>
      cases n with
      | ofNat n => exact congrArg Int.ofNat (ofNat_inj.mp h)
      | negSucc n => exact absurd h (ofInt_ofNat_ne_negSucc m n)
    | negSucc m =>
      cases n with
      | ofNat n => exact absurd h.symm (ofInt_ofNat_ne_negSucc n m)
      | negSucc n =>
        have hlist := congrArg String.toList h
        rw [toList_ofInt_negSucc, toList_ofInt_negSucc] at hlist
        have hdigits : ofNat (m + 1) = ofNat (n + 1) := String.ofList_inj.mpr (List.cons.inj hlist).2
        exact congrArg Int.negSucc (Nat.succ.inj (ofNat_inj.mp hdigits))
  · rintro rfl
    rfl

theorem underscore_not_mem_ofNat (n : Nat) : '_' ∉ (ofNat n).toList := by
  rw [toList_ofNat]
  exact Nat.underscore_not_in_toDigits

theorem underscore_not_mem_ofInt (n : Int) : '_' ∉ (ofInt n).toList := by
  cases n with
  | ofNat n => exact underscore_not_mem_ofNat n
  | negSucc n =>
    rw [toList_ofInt_negSucc]
    simp [Nat.underscore_not_in_toDigits]

/-- A smaller number has no longer text. -/
theorem length_ofNat_mono {m n : Nat} (h : m ≤ n) : (ofNat m).length ≤ (ofNat n).length := by
  rw [ofNat, ofNat, String.length_ofList, String.length_ofList]
  have hpos : 0 < (digits n).length := Nat.length_toDigits_pos
  have hlt := (Nat.length_toDigits_le_iff (by decide) hpos).mp (Nat.le_refl (digits n).length)
  exact (Nat.length_toDigits_le_iff (by decide) hpos).mpr (Nat.lt_of_le_of_lt h hlt)

theorem length_ofInt_le {n : Int} {bound : Nat} (h : n.natAbs ≤ bound) :
    (ofInt n).length ≤ (ofNat bound).length + 1 := by
  cases n with
  | ofNat n => exact Nat.le_succ_of_le (length_ofNat_mono h)
  | negSucc n =>
    have hlength : (ofNat (n + 1)).length ≤ (ofNat bound).length := length_ofNat_mono h
    rw [ofInt, String.length_append, Nat.add_comm]
    exact Nat.succ_le_succ hlength

theorem length_ofNat_of_lt_size {n : Nat} (h : n < UInt64.size) : (ofNat n).length ≤ 20 := by
  have hle : n ≤ UInt64.size - 1 := Nat.le_pred_of_lt h
  exact Nat.le_trans (length_ofNat_mono hle) (by decide)

theorem length_ofInt_toInt (n : Int64) : (ofInt n.toInt).length ≤ 20 := by
  have hlow := n.le_toInt
  have hhigh := n.toInt_lt
  have hle : n.toInt.natAbs ≤ UInt64.size / 2 := by
    rw [UInt64.size]
    omega
  exact Nat.le_trans (length_ofInt_le hle) (by decide)

end IncrementalBackup.Decimal
