import IncrementalBackup.Dedup.Key
import IncrementalBackup.Proofs.Text.Decimal

/-!
# Reading keys back

The parts of a key are found again from its end, as the last of them has no underscore in it. The
bytes that are digested fall apart into the files they come from: eight bytes tell the size of a
file, and the size tells how many of its bytes follow.
-/

namespace IncrementalBackup

/-! ## Parts between underscores -/

namespace DedupKey

theorem lastPart?_append {front back : List Char} (h : '_' ∉ back) :
    lastPart? (front ++ '_' :: back) = some back := by
  have hkept : (front ++ '_' :: back).reverse.takeWhile (· ≠ '_') = back.reverse := by
    rw [List.reverse_append, List.reverse_cons, List.append_assoc, List.takeWhile_append_of_pos]
    · simp
    · intro c hc
      have hne : c ≠ '_' := fun heq => h (heq ▸ List.mem_reverse.mp hc)
      simpa using hne
  rw [lastPart?, if_pos (by simp), hkept, List.reverse_reverse]

theorem append_underscore_inj {a b c d : String} (hb : '_' ∉ b.toList) (hd : '_' ∉ d.toList) :
    a ++ "_" ++ b = c ++ "_" ++ d ↔ a = c ∧ b = d := by
  constructor
  · intro h
    have hlist : a.toList ++ '_' :: b.toList = c.toList ++ '_' :: d.toList := by
      simpa using congrArg String.toList h
    have hlast : some b.toList = some d.toList := by
      rw [← lastPart?_append hb, hlist, lastPart?_append hd]
    have hback : b.toList = d.toList := Option.some.inj hlast
    rw [hback] at hlist
    exact ⟨String.toList_inj.mp (List.append_cancel_right hlist), String.toList_inj.mp hback⟩
  · rintro ⟨rfl, rfl⟩
    rfl

end DedupKey

namespace Dedup

/-! ## Digested bytes -/

theorem length_sizeBytes (n : Nat) : (sizeBytes n).length = 8 := by simp [sizeBytes]

/-- A number is given by its lowest bytes, if it has no others. -/
theorem eq_of_bytes_eq (width : Nat) {m n : Nat} (hm : m >>> (8 * width) = 0)
    (hn : n >>> (8 * width) = 0)
    (h : ∀ i < width, (m >>> (8 * i)) % 256 = (n >>> (8 * i)) % 256) : m = n := by
  induction width generalizing m n with
  | zero => exact hm.trans hn.symm
  | succ width ih =>
    have hshift : ∀ k i : Nat, k >>> (8 * (i + 1)) = (k >>> 8) >>> (8 * i) := by
      intro k i
      rw [← Nat.shiftRight_add, Nat.mul_succ, Nat.add_comm]
    have hlow : m % 256 = n % 256 := h 0 (Nat.succ_pos width)
    have hhigh : m >>> 8 = n >>> 8 := by
      refine ih (hshift m width ▸ hm) (hshift n width ▸ hn) fun i hi => ?_
      have hbyte := h (i + 1) (Nat.succ_lt_succ hi)
      rwa [hshift, hshift] at hbyte
    rw [Nat.shiftRight_eq_div_pow, Nat.shiftRight_eq_div_pow] at hhigh
    omega

theorem sizeBytes_inj {m n : Nat} (hm : m < UInt64.size) (hn : n < UInt64.size)
    (h : sizeBytes m = sizeBytes n) : m = n := by
  have hzero : ∀ k < UInt64.size, k >>> (8 * 8) = 0 := by
    intro k hk
    rw [Nat.shiftRight_eq_div_pow]
    exact Nat.div_eq_of_lt hk
  refine eq_of_bytes_eq 8 (hzero m hm) (hzero n hn) fun i hi => ?_
  have hsame := List.map_inj_left.mp h i (List.mem_range.mpr hi)
  exact congrArg UInt8.toNat hsame

/-- What is digested of a file when at most `limit` bytes of it are read: its size, and the bytes it
begins with. -/
def IsExcerpt (limit : Nat) (content : Nat × List UInt8) : Prop :=
  content.1 < UInt64.size ∧ content.2.length = min limit content.1

variable {limit : Nat} {content other : Nat × List UInt8} {rest others : List UInt8}

/-- The size comes first and tells how many bytes follow, so the next file begins at a known place. -/
theorem excerpt_append_inj (hcontent : IsExcerpt limit content) (hother : IsExcerpt limit other)
    (h : sizeBytes content.1 ++ content.2 ++ rest = sizeBytes other.1 ++ other.2 ++ others) :
    content = other ∧ rest = others := by
  rw [List.append_assoc, List.append_assoc] at h
  obtain ⟨hbytes, hrest⟩ := List.append_inj h (by rw [length_sizeBytes, length_sizeBytes])
  have hsize : content.1 = other.1 := sizeBytes_inj hcontent.1 hother.1 hbytes
  have hlength : content.2.length = other.2.length := by rw [hcontent.2, hother.2, hsize]
  obtain ⟨hfirst, hrest⟩ := List.append_inj hrest hlength
  exact ⟨Prod.ext hsize hfirst, hrest⟩

theorem digestInput_cons (content : Nat × List UInt8) (contents : List (Nat × List UInt8)) :
    digestInput (content :: contents) =
      sizeBytes content.1 ++ content.2 ++ digestInput contents := List.flatMap_cons

theorem digestInput_cons_ne_nil (content : Nat × List UInt8) (contents : List (Nat × List UInt8)) :
    digestInput (content :: contents) ≠ [] := by
  intro h
  have hlength := congrArg List.length h
  simp only [digestInput_cons, List.length_append, length_sizeBytes, List.length_nil] at hlength
  omega

theorem digestInput_inj {contents others : List (Nat × List UInt8)}
    (hcontents : ∀ c ∈ contents, IsExcerpt limit c) (hothers : ∀ c ∈ others, IsExcerpt limit c)
    (h : digestInput contents = digestInput others) : contents = others := by
  induction contents generalizing others with
  | nil =>
    cases others with
    | nil => rfl
    | cons other others => exact absurd h.symm (digestInput_cons_ne_nil other others)
  | cons content contents ih =>
    cases others with
    | nil => exact absurd h (digestInput_cons_ne_nil content contents)
    | cons other others =>
      obtain ⟨hcontent, hrest⟩ := List.forall_mem_cons.mp hcontents
      obtain ⟨hother, hrestOthers⟩ := List.forall_mem_cons.mp hothers
      rw [digestInput_cons, digestInput_cons] at h
      obtain ⟨rfl, htail⟩ := excerpt_append_inj hcontent hother h
      rw [ih hrest hrestOthers htail]

end Dedup

end IncrementalBackup
