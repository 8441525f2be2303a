/-!
# Comparisons

Byte strings are compared byte by byte. Other values are compared by a part of them; if that part
tells the values apart, only equal values compare as equal.
-/

namespace IncrementalBackup

/-- The first bytes that differ decide; a byte string comes before its extensions. -/
def compareBytes (a b : List UInt8) : Ordering :=
  List.compareLex (fun x y : UInt8 => Ord.compare x y) a b

instance : Std.TransCmp compareBytes :=
  inferInstanceAs (Std.TransCmp (List.compareLex (fun x y : UInt8 => Ord.compare x y)))

instance : Std.LawfulEqCmp compareBytes :=
  inferInstanceAs (Std.LawfulEqCmp (List.compareLex (fun x y : UInt8 => Ord.compare x y)))

variable {α β : Type} {cmp : β → β → Ordering}

def compareBy (part : α → β) (cmp : β → β → Ordering) (a b : α) : Ordering := cmp (part a) (part b)

instance (part : α → β) [Std.TransCmp cmp] : Std.TransCmp (compareBy part cmp) where
  eq_swap {a b} := by
    unfold compareBy
    exact Std.OrientedCmp.eq_swap
  isLE_trans {a b c} h₁ h₂ := by
    unfold compareBy at *
    exact Std.TransCmp.isLE_trans h₁ h₂

theorem part_eq_of_compareBy_eq {part : α → β} [Std.LawfulEqCmp cmp] {a b : α}
    (h : compareBy part cmp a b = .eq) : part a = part b := by
  unfold compareBy at h
  exact Std.LawfulEqCmp.eq_of_compare h

theorem lawfulEqCmp_of_parts {first second : α → α → Ordering} [Std.TransCmp first]
    [Std.TransCmp second]
    (h : ∀ a b, first a b = .eq → second a b = .eq → a = b) :
    Std.LawfulEqCmp (compareLex first second) where
  compare_self := Std.ReflCmp.compare_self
  eq_of_compare {a b} hab := by
    obtain ⟨hf, hs⟩ := Ordering.then_eq_eq.mp hab
    exact h a b hf hs

theorem lawfulEqCmp_of_part (part : α → β) [Std.TransCmp cmp] [Std.LawfulEqCmp cmp]
    (h : ∀ a b, part a = part b → a = b) : Std.LawfulEqCmp (compareBy part cmp) where
  compare_self := Std.ReflCmp.compare_self
  eq_of_compare {a b} hab := h a b (part_eq_of_compareBy_eq hab)

def compareNat (a b : Nat) : Ordering := Ord.compare a b

instance : Std.TransCmp compareNat := inferInstanceAs (Std.TransCmp (fun a b : Nat => Ord.compare a b))

instance : Std.LawfulEqCmp compareNat :=
  inferInstanceAs (Std.LawfulEqCmp (fun a b : Nat => Ord.compare a b))

end IncrementalBackup
