/-!
# Queues that run empty

A queue of numbers loses the number at its front and gets smaller ones at its end, as many as there
may be. However that goes on, it comes to an end.
-/

namespace IncrementalBackup.Scan

/-- The number at the front gives way to smaller ones at the end. -/
def Replaced (after before : List Nat) : Prop :=
  ∃ n rest more, before = n :: rest ∧ after = rest ++ more ∧ ∀ m ∈ more, m < n

theorem Replaced.lt_of_mem {after before : List Nat} {bound : Nat} (h : Replaced after before)
    (hbound : ∀ n ∈ before, n < bound) : ∀ n ∈ after, n < bound := by
  obtain ⟨n, rest, more, rfl, rfl, hmore⟩ := h
  intro m hm
  rcases List.mem_append.mp hm with hm | hm
  · exact hbound m (List.mem_cons_of_mem n hm)
  · exact Nat.lt_trans (hmore m hm) (hbound n List.mem_cons_self)

/-- A queue whose greatest number stands behind `front` runs empty, if all queues do that hold this
number once less. -/
theorem acc_replaced_of_count {top : Nat} (front back : List Nat)
    (hle : ∀ n ∈ front ++ top :: back, n < top + 1) (hfront : top ∉ front)
    (ih : ∀ queue : List Nat, (∀ n ∈ queue, n < top + 1) → queue.count top = back.count top →
      Acc Replaced queue) :
    Acc Replaced (front ++ top :: back) := by
  induction front generalizing back with
  | nil =>
    apply Acc.intro
    intro after hafter
    have hlt := hafter.lt_of_mem hle
    obtain ⟨n, rest, more, hcons, rfl, hmore⟩ := hafter
    obtain ⟨rfl, rfl⟩ := List.cons.inj hcons
    have hnot : top ∉ more := fun h => Nat.lt_irrefl top (hmore top h)
    refine ih _ hlt ?_
    rw [List.count_append, List.count_eq_zero.mpr hnot, Nat.add_zero]
  | cons a front ihf =>
    apply Acc.intro
    intro after hafter
    have hlt := hafter.lt_of_mem hle
    obtain ⟨n, rest, more, hcons, rfl, hmore⟩ := hafter
    obtain ⟨rfl, rfl⟩ := List.cons.inj hcons
    have ha : a ≤ top := Nat.le_of_lt_succ (hle a List.mem_cons_self)
    have hnot : top ∉ more := fun h => Nat.not_lt.mpr ha (hmore top h)
    have hshape : front.append (top :: back) ++ more = front ++ top :: (back ++ more) := by simp
    rw [hshape] at hlt ⊢
    refine ihf (back ++ more) hlt (fun h => hfront (List.mem_cons_of_mem a h)) ?_
    rw [List.count_append, List.count_eq_zero.mpr hnot, Nat.add_zero]
    exact ih

theorem acc_replaced_of_lt (bound : Nat) :
    ∀ queue : List Nat, (∀ n ∈ queue, n < bound) → Acc Replaced queue := by
  induction bound with
  | zero =>
    intro queue hqueue
    apply Acc.intro
    rintro _ ⟨n, rest, more, rfl, -, -⟩
    exact absurd (hqueue n List.mem_cons_self) (Nat.not_lt_zero n)
  | succ top ih =>
    intro queue hqueue
    -- The greatest number gets rarer each time it reaches the front, until it is gone.
    generalize hk : queue.count top = k
    induction k generalizing queue with
    | zero =>
      refine ih queue ?_
      intro n hn
      have hne : n ≠ top := fun h => List.count_eq_zero.mp hk (h ▸ hn)
      have hle := hqueue n hn
      omega
    | succ k ihk =>
      have hmem : top ∈ queue := List.count_pos_iff.mp (by omega)
      obtain ⟨front, back, rfl, hfront⟩ := List.eq_append_cons_of_mem hmem
      have hback : back.count top = k := by
        rw [List.count_append, List.count_eq_zero.mpr hfront, List.count_cons_self] at hk
        omega
      exact acc_replaced_of_count front back hqueue hfront (hback ▸ ihk)

theorem replaced_wf : WellFounded Replaced := by
  refine ⟨fun queue => ?_⟩
  obtain ⟨bound, hbound⟩ : ∃ bound, ∀ n ∈ queue, n < bound := by
    induction queue with
    | nil => exact ⟨0, by simp⟩
    | cons a queue ih =>
      obtain ⟨bound, hbound⟩ := ih
      refine ⟨max bound (a + 1), fun n hn => ?_⟩
      rcases List.mem_cons.mp hn with rfl | hn
      · omega
      · have := hbound n hn
        omega
  exact acc_replaced_of_lt bound queue hbound

end IncrementalBackup.Scan
