import IncrementalBackup.Text.Decimal
import IncrementalBackup.Time.Calendar
import IncrementalBackup.Time.Instant

/-!
# Dates with a time of day

Moments of the universal time scale as they are written. During a leap second the count of
nanoseconds runs on to the end of a second second, and the text shows second 60. The fraction has
zero, three, six or nine digits, the fewest that are exact.
-/

namespace IncrementalBackup

/-- Seconds since 1970-01-01T00:00:00Z and up to two seconds of nanoseconds. -/
structure DateTime where
  seconds : Int
  nanos : Nat
deriving DecidableEq, Repr

namespace DateTime

def firstSecond : Int := -8334601228800
def lastSecond : Int := 8210266876799

def ofInstant? (t : Instant) : Option DateTime :=
  if firstSecond ≤ t.seconds ∧ t.seconds ≤ lastSecond then some ⟨t.seconds, t.subsecond⟩ else none

/-- The instant; a leap second runs into the next one. -/
def toInstant (d : DateTime) : Instant := .ofSeconds d.seconds d.nanos

def secondsPerDay : Int := 86400

def date (d : DateTime) : Calendar.Date := Calendar.ofDays (d.seconds / secondsPerDay)

def secondOfDay (d : DateTime) : Nat := (d.seconds % secondsPerDay).toNat

/-- A year has four digits; past 9999 it has a sign. -/
def yearText (year : Int) : List Char :=
  if 0 ≤ year ∧ year ≤ 9999 then Decimal.padded 4 year.toNat
  else if year < 0 then '-' :: Decimal.padded 4 year.natAbs
  else '+' :: Decimal.padded 4 year.toNat

def dateText (d : Calendar.Date) : List Char :=
  yearText d.year ++ '-' :: Decimal.padded 2 d.month ++ '-' :: Decimal.padded 2 d.day

def fractionText (nanos : Nat) : List Char :=
  if nanos = 0 then []
  else if nanos % 1000000 = 0 then '.' :: Decimal.padded 3 (nanos / 1000000)
  else if nanos % 1000 = 0 then '.' :: Decimal.padded 6 (nanos / 1000)
  else '.' :: Decimal.padded 9 nanos

def timeText (d : DateTime) : List Char :=
  let leap := d.nanos / 1000000000
  Decimal.padded 2 (d.secondOfDay / 3600) ++ ':' :: Decimal.padded 2 (d.secondOfDay / 60 % 60) ++
    ':' :: Decimal.padded 2 (d.secondOfDay % 60 + leap) ++ fractionText (d.nanos % 1000000000)

def rfc3339 (d : DateTime) : String :=
  String.ofList (dateText d.date ++ 'T' :: d.timeText ++ ['Z'])

def spaced (d : DateTime) : String :=
  String.ofList (dateText d.date ++ ' ' :: d.timeText) ++ " UTC"

end DateTime

end IncrementalBackup
