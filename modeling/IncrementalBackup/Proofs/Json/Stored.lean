import IncrementalBackup.Proofs.Json.Format
import IncrementalBackup.Proofs.Json.RoundTrip

/-!
# Values that are stored and read back

A value is stored if it has a form of plain JSON that is read back as the value; its texts are then
read back in both layouts. A record is stored if its fields are. A type round-trips if only values
that are stored can be read.
-/

namespace IncrementalBackup

namespace JsonFormat

variable {α : Type} [JsonFormat α]

structure IsStoredAs (a : α) (form : Json) : Prop where
  toJson? : toJson? a = some form
  plain : form.Plain
  ofJson? : ofJson? form = some a

def IsStored (a : α) : Prop := ∃ form, IsStoredAs a form

theorem IsStored.exists_compact? {a : α} (h : IsStored a) :
    ∃ text, compact? a = some text ∧ read? text = some a := by
  obtain ⟨form, htoJson, hplain, hofJson⟩ := h
  exact ⟨form.compact, by rw [compact?, htoJson, Option.map_some],
    by rw [read?, Json.compact, Json.read?_write hplain, Option.bind_some, hofJson]⟩

theorem IsStored.exists_pretty? {a : α} (h : IsStored a) :
    ∃ text, pretty? a = some text ∧ read? text = some a := by
  obtain ⟨form, htoJson, hplain, hofJson⟩ := h
  exact ⟨form.pretty, by rw [pretty?, htoJson, Option.map_some],
    by rw [read?, Json.read?_pretty hplain, Option.bind_some, hofJson]⟩

/-- What has been read can be written in either layout, and is then read again as the same value. -/
def RoundTrips (α : Type) [JsonFormat α] : Prop :=
  ∀ (text : String) (a : α), read? text = some a →
    (∃ written, compact? a = some written ∧ read? written = some a) ∧
      ∃ written, pretty? a = some written ∧ read? written = some a

theorem RoundTrips.of_isStored (h : ∀ (form : Json) (a : α), ofJson? form = some a → IsStored a) :
    RoundTrips α := by
  intro text a hread
  obtain ⟨form, -, hform⟩ := Option.bind_eq_some_iff.mp hread
  exact ⟨(h form a hform).exists_compact?, (h form a hform).exists_pretty?⟩

end JsonFormat

namespace Json

/-! ## Fields -/

theorem integer?_of_le {least most n : Int} (hleast : least ≤ n) (hmost : n ≤ most) :
    integer? least most (.integer n) = some n := if_pos ⟨hleast, hmost⟩

theorem uint32?_ofNat (n : UInt32) : uint32? (.ofNat n.toNat) = some n := by
  have hmost : (n.toNat : Int) ≤ UInt32.size - 1 := by
    have hlt := n.toNat_lt
    rw [UInt32.size]
    omega
  rw [uint32?, ofNat, integer?_of_le (Int.natCast_nonneg _) hmost]
  simp

theorem uint64?_ofNat (n : UInt64) : uint64? (.ofNat n.toNat) = some n := by
  have hmost : (n.toNat : Int) ≤ UInt64.size - 1 := by
    have hlt := n.toNat_lt
    rw [UInt64.size]
    omega
  rw [uint64?, ofNat, integer?_of_le (Int.natCast_nonneg _) hmost]
  simp

theorem int64?_integer (n : Int64) : int64? (.integer n.toInt) = some n := by
  rw [int64?, integer?_of_le n.minValue_le_toInt n.toInt_le]
  simp

theorem optional?_ofOption (text : Option String) :
    optional? text? (.ofOption .ofString text) = some text := by
  cases text <;> rfl

theorem plain_ofOption (text : Option String) : (ofOption ofString text).Plain := by
  cases text with
  | none => exact .null
  | some s => exact .string s

/-! ## What has been read -/

theorem required?_eq_some {α : Type} {read : Json → Option α} {field : Option Json} {a : α}
    (h : required? read field = some a) : ∃ form, read form = some a := by
  cases field with
  | none => cases h
  | some form => exact ⟨form, h⟩

theorem list?_eq_some {α : Type} {read : Json → Option α} {form : Json} {items : List α}
    (h : list? read form = some items) : ∀ a ∈ items, ∃ item, read item = some a := by
  have hmapM : ∀ (forms : List Json) (items : List α), forms.mapM read = some items →
      ∀ a ∈ items, ∃ item, read item = some a := by
    intro forms
    induction forms with
    | nil =>
      intro items hread a ha
      cases hread
      cases ha
    | cons form forms ih =>
      intro items hread
      simp only [List.mapM_cons, Option.bind_eq_bind, Option.bind_eq_some_iff] at hread
      obtain ⟨first, hfirst, rest, hrest, hitems⟩ := hread
      cases hitems
      exact List.forall_mem_cons.mpr ⟨⟨form, hfirst⟩, ih rest hrest⟩
  cases form with
  | array forms => exact hmapM forms items h
  | _ => cases h

end Json

end IncrementalBackup
