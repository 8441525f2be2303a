/-!
# Instants

A point in time as nanoseconds since 1970-01-01T00:00:00Z, before it or after it. Backup times are
whole milliseconds after that moment.
-/

namespace IncrementalBackup

structure Instant where
  nanoseconds : Int
deriving DecidableEq, Repr

namespace Instant

def epoch : Instant := ⟨0⟩

instance : Inhabited Instant := ⟨epoch⟩

instance : LT Instant := ⟨fun a b => a.nanoseconds < b.nanoseconds⟩
instance : LE Instant := ⟨fun a b => a.nanoseconds ≤ b.nanoseconds⟩

instance (a b : Instant) : Decidable (a < b) :=
  inferInstanceAs (Decidable (a.nanoseconds < b.nanoseconds))
instance (a b : Instant) : Decidable (a ≤ b) :=
  inferInstanceAs (Decidable (a.nanoseconds ≤ b.nanoseconds))

def perSecond : Int := 1000000000

def perMillisecond : Int := 1000000

def ofSeconds (seconds : Int) (nanos : Nat) : Instant := ⟨seconds * perSecond + nanos⟩

def seconds (t : Instant) : Int := t.nanoseconds / perSecond

def subsecond (t : Instant) : Nat := (t.nanoseconds % perSecond).toNat

def ofMillis (millis : UInt64) : Instant := ⟨millis.toNat * perMillisecond⟩

/-- Whole milliseconds; what lies before the first or after the last one is moved to it. -/
def toMillis (t : Instant) : UInt64 :=
  let millis := (t.nanoseconds / perMillisecond).toNat
  if millis < UInt64.size then millis.toUInt64 else (UInt64.size - 1).toUInt64

theorem toMillis_ofMillis (millis : UInt64) : (ofMillis millis).toMillis = millis := by
  have h : ((millis.toNat : Int) * 1000000 / 1000000).toNat = millis.toNat := by omega
  simp only [toMillis, ofMillis, perMillisecond, h]
  rw [if_pos millis.toNat_lt]
  simp

end Instant

end IncrementalBackup
