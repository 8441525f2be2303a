import Mathlib.Data.List.FinRange
import Mathlib.Data.List.Sort
import Mathlib.Logic.Equiv.Basic
import Mathlib.Data.Fin.VecNotation
import IncrementalBackup.Proofs.Evaluation.Decision
import IncrementalBackup.Proofs.HotPaths.Cache

/-!
# Calls one after another

Calls share one cache. A call reads and changes only what the cache holds for its own package, so for
the decision of a call and for what is known of its package only the calls of that package count. How
calls of different packages alternate does not matter.
-/

namespace IncrementalBackup

namespace Evaluation

open HotPathCache

structure Call where
  package : PackageDirs
  lastBackup : Option Instant
  options : ScanOptions
deriving Repr

/-- The package that a call is about. -/
def Call.owner (call : Call) : String := call.package.package

def Call.run (view : View) (call : Call) (cache : HotPathCache) : BackupDecision × HotPathCache :=
  evaluate view call.options call.package call.lastBackup cache

def decisions (view : View) : HotPathCache → List Call → List BackupDecision
  | _, [] => []
  | cache, call :: rest => (call.run view cache).1 :: decisions view (call.run view cache).2 rest

def cacheAfter (view : View) (cache : HotPathCache) (calls : List Call) : HotPathCache :=
  calls.foldl (fun cache call => (call.run view cache).2) cache

variable {view : View} {cache cache' : HotPathCache} {package : String}

/-- Each call meets the cache that the calls before it have left. -/
theorem decisions_getElem? (view : View) (cache : HotPathCache) (calls : List Call) (i : Nat) :
    (decisions view cache calls)[i]? =
      calls[i]?.map fun call => (call.run view (cacheAfter view cache (calls.take i))).1 := by
  induction calls generalizing cache i with
  | nil => rfl
  | cons call calls ih =>
    cases i with
    | zero => rfl
    | succ i => exact ih _ i

/-! ## A call and its package -/

theorem firstChanged_congr (view : View) (h : SameFor package cache cache') (options : ScanOptions)
    (since : Instant) (dirs : List (DataCategory × Path)) :
    firstChanged view options cache package since dirs =
      firstChanged view options cache' package since dirs := by
  induction dirs with
  | nil => rfl
  | cons dir dirs ih =>
    have hrequest : request options cache package since dir =
        request options cache' package since dir := by
      rw [request, request, h.get?]
    rw [firstChanged, firstChanged, hrequest, ih]

theorem preferred?_congr (h : SameFor package cache cache') (options : ScanOptions) :
    preferred? options cache package = preferred? options cache' package := by
  rw [preferred?, preferred?, h.lastChangedCategory?]

/-- What a call does to the cache: nothing, or it records where a scan has found a change. The hint of
the scan is what the cache has told for the same category. -/
theorem run_snd_cases (view : View) (call : Call) (cache : HotPathCache) :
    (call.run view cache).2 = cache ∨ ∃ request category path time,
      request.maxDepth = call.options.maxDepth.toNat ∧
      (∀ hint, request.hint = some hint → cache.get? call.owner category = some hint) ∧
      scan view request = .changed path time ∧
      (call.run view cache).2 = cache.recordChange call.owner category path := by
  unfold Call.run evaluate
  cases call.lastBackup with
  | none => exact .inl rfl
  | some since =>
    dsimp only
    cases hfirst : firstChanged view call.options cache call.package.package since
        (ordered (preferred? call.options cache call.package.package) call.package.dirs) with
    | none => exact .inl rfl
    | some found =>
      obtain ⟨category, path⟩ := found
      cases call.options.useHotPath with
      | false => exact .inl rfl
      | true =>
        obtain ⟨dir, -, rfl, time, hscan⟩ := exists_scan_of_firstChanged hfirst
        exact .inr ⟨_, dir.1, path, time, rfl, fun hint => get?_of_hint, hscan, rfl⟩

/-- A call depends only on what is known of its package, and so does what it leaves there. -/
theorem run_congr (view : View) (call : Call) (h : SameFor call.owner cache cache') :
    (call.run view cache).1 = (call.run view cache').1 ∧
      SameFor call.owner (call.run view cache).2 (call.run view cache').2 := by
  unfold Call.run evaluate
  cases call.lastBackup with
  | none => exact ⟨rfl, h⟩
  | some since =>
    have hfirst := firstChanged_congr view h call.options since
      (ordered (preferred? call.options cache call.owner) call.package.dirs)
    rw [preferred?_congr h] at hfirst
    dsimp only
    rw [Call.owner] at *
    rw [preferred?_congr h, hfirst]
    cases firstChanged view call.options cache' call.package.package since
        (ordered (preferred? call.options cache' call.package.package) call.package.dirs) with
    | none => exact ⟨rfl, h⟩
    | some found =>
      obtain ⟨category, path⟩ := found
      cases call.options.useHotPath with
      | false => exact ⟨rfl, h⟩
      | true => exact ⟨rfl, h.recordChange category path⟩

theorem sameFor_run_of_ne {call : Call} (hne : package ≠ call.owner) (cache : HotPathCache) :
    SameFor package (call.run view cache).2 cache := by
  rcases run_snd_cases view call cache with h | ⟨_, category, path, _, -, -, -, h⟩
  · rw [h]
    exact .refl package cache
  · rw [h]
    exact sameFor_recordChange_of_ne hne cache category path

/-- For a package only its own calls count. -/
theorem sameFor_cacheAfter_filter (view : View) (h : SameFor package cache cache') (calls : List Call) :
    SameFor package (cacheAfter view cache calls)
      (cacheAfter view cache' (calls.filter fun call => call.owner = package)) := by
  induction calls generalizing cache cache' with
  | nil => exact h
  | cons call calls ih =>
    rcases eq_or_ne call.owner package with rfl | hne
    · rw [List.filter_cons_of_pos (by simp)]
      exact ih (run_congr view call h).2
    · rw [List.filter_cons_of_neg (by simpa using hne)]
      exact ih ((sameFor_run_of_ne hne.symm cache).trans h)

/-- For a package, calls can be replaced by others with the same calls of that package. -/
theorem sameFor_cacheAfter (view : View) {calls calls' : List Call}
    (h : calls.filter (fun call => call.owner = package) =
      calls'.filter fun call => call.owner = package) (cache : HotPathCache) :
    SameFor package (cacheAfter view cache calls) (cacheAfter view cache calls') := by
  have hcalls := sameFor_cacheAfter_filter view (.refl package cache) calls
  have hcalls' := sameFor_cacheAfter_filter view (.refl package cache) calls'
  exact hcalls.trans (h ▸ hcalls'.symm)

/-! ## Calls in another order -/

section

variable {n : Nat} {calls : Fin n → Call} {order : Equiv.Perm (Fin n)}

/-- The calls of each package stay in their order; `order` tells which call is now in a place. -/
def KeepsOrderOfOwners (calls : Fin n → Call) (order : Equiv.Perm (Fin n)) : Prop :=
  ∀ i j, i < j → (calls (order i)).owner = (calls (order j)).owner → order i < order j

theorem KeepsOrderOfOwners.lt_iff (h : KeepsOrderOfOwners calls order) {i j : Fin n}
    (howner : (calls (order i)).owner = (calls (order j)).owner) : i < j ↔ order i < order j := by
  refine ⟨fun hlt => h i j hlt howner, fun hlt => ?_⟩
  rcases lt_trichotomy i j with hij | rfl | hji
  · exact hij
  · exact absurd hlt (lt_irrefl _)
  · exact absurd hlt (h j i hji howner.symm).asymm

theorem mem_take_finRange {i : Fin n} {k : Nat} : i ∈ (List.finRange n).take k ↔ i < k := by
  rw [List.mem_take_iff_getElem]
  constructor
  · rintro ⟨j, hj, rfl⟩
    simpa using (Nat.lt_min.mp hj).1
  · intro hi
    exact ⟨i, by simpa using hi, by simp⟩

/-- The calls of a package up to a place are the same ones in both orders. -/
theorem filter_take_reordered (h : KeepsOrderOfOwners calls order) {k k' : Nat}
    (hplaces : ∀ j, (calls (order j)).owner = package → (j < k ↔ order j < k')) :
    ((List.ofFn (calls ∘ order)).take k).filter (fun call => call.owner = package) =
      ((List.ofFn calls).take k').filter fun call => call.owner = package := by
  have hsorted : ∀ m, ((List.finRange n).take m).Pairwise (· < ·) := fun m =>
    (List.sortedLT_finRange n).pairwise.take
  have hindices : (((List.finRange n).take k).map order).filter
        (fun i => (calls i).owner = package) =
      ((List.finRange n).take k').filter fun i => (calls i).owner = package := by
    refine List.Pairwise.eq_of_mem_iff (r := (· < ·)) ?_ ((hsorted k').filter _) fun i => ?_
    · rw [List.pairwise_filter, List.pairwise_map]
      refine (hsorted k).imp fun {i j} hij hi hj => ?_
      exact h i j hij ((of_decide_eq_true hi).trans (of_decide_eq_true hj).symm)
    · obtain ⟨j, rfl⟩ := order.surjective i
      rw [List.mem_filter, List.mem_filter, List.mem_map_of_injective order.injective,
        mem_take_finRange, mem_take_finRange, decide_eq_true_iff]
      exact and_congr_left fun howner => hplaces j howner
  rw [List.ofFn_eq_map, List.ofFn_eq_map, ← List.map_map, ← List.map_take, ← List.map_take,
    ← List.map_take, List.filter_map (f := calls), List.filter_map (f := calls)]
  exact congrArg (List.map calls) hindices

/-- Calls of several packages in another order that keeps the calls of each package in theirs: every
call has the same decision, and the cache is the same afterwards. -/
theorem decisions_reordered (view : View) (cache : HotPathCache) {n : Nat} (calls : Fin n → Call)
    (order : Equiv.Perm (Fin n)) (hkeeps : KeepsOrderOfOwners calls order) :
    (∀ i : Fin n, ∃ decision,
      (decisions view cache (List.ofFn (calls ∘ order)))[(i : Nat)]? = some decision ∧
      (decisions view cache (List.ofFn calls))[(order i : Nat)]? = some decision) ∧
    cacheAfter view cache (List.ofFn (calls ∘ order)) =
      cacheAfter view cache (List.ofFn calls) := by
  constructor
  · intro i
    refine ⟨((calls (order i)).run view
      (cacheAfter view cache ((List.ofFn (calls ∘ order)).take i))).1, ?_, ?_⟩
    · rw [decisions_getElem?]
      simp
    · have hbefore := filter_take_reordered hkeeps (k := i) fun j howner =>
        hkeeps.lt_iff (j := i) howner
      have hsame := sameFor_cacheAfter view hbefore cache
      rw [decisions_getElem?, (run_congr view _ hsame).1]
      simp
  · refine eq_of_sameFor fun package => ?_
    have hplaces : ∀ j, (calls (order j)).owner = package → (j < n ↔ order j < n) := fun j _ =>
      iff_of_true j.isLt (order j).isLt
    have hall := filter_take_reordered hkeeps hplaces
    rw [List.take_of_length_le (by simp), List.take_of_length_le (by simp)] at hall
    exact sameFor_cacheAfter view hall cache

end

/-- Two calls for one package with a call for another one in between. -/
def alternating : Fin 3 → Call :=
  ![⟨newMediaDirs, some ⟨7⟩, .default⟩,
    ⟨⟨"q", [(.obb, .ofString "/app")]⟩, some ⟨2⟩, ⟨1, true⟩⟩,
    ⟨newMediaDirs, some ⟨9⟩, .default⟩]

theorem decisions_reordered_alternating :
    (alternating 0).owner = (alternating 2).owner ∧ (alternating 1).owner ≠ (alternating 2).owner ∧
      KeepsOrderOfOwners alternating (Equiv.swap 1 2) ∧
      (decisions newMedia.view newMediaCache (List.ofFn (alternating ∘ Equiv.swap 1 2)))[2]? =
        (decisions newMedia.view newMediaCache (List.ofFn alternating))[1]? ∧
      cacheAfter newMedia.view newMediaCache (List.ofFn (alternating ∘ Equiv.swap 1 2)) =
        cacheAfter newMedia.view newMediaCache (List.ofFn alternating) := by
  have hkeeps : KeepsOrderOfOwners alternating (Equiv.swap 1 2) := by
    unfold KeepsOrderOfOwners
    decide
  obtain ⟨hdecisions, hcache⟩ :=
    decisions_reordered newMedia.view newMediaCache alternating (Equiv.swap 1 2) hkeeps
  obtain ⟨decision, hthere, hhere⟩ := hdecisions 2
  exact ⟨by decide, by decide, hkeeps, hthere.trans hhere.symm, hcache⟩

end Evaluation

end IncrementalBackup
