import IncrementalBackup.Text.Blank
import IncrementalBackup.Time.DateTime

/-!
# Reading dates with a time of day

Two readers share their parts. The strict one takes the grammar of RFC 3339: fixed widths, `T` or a
space between date and time, an offset with a colon. The lax one takes fields of fewer digits, signed
years, blanks around the parts, and the word `UTC` or an offset without a colon.
-/

namespace IncrementalBackup.Rfc3339

/-- What a reader makes of the front of a text, with the rest of it. -/
abbrev Reader (α : Type) : Type := List Char → Option (α × List Char)

def literal (c : Char) : Reader Unit
  | c' :: rest => if c' = c then some ((), rest) else none
  | [] => none

def digitsFrom : Nat → Nat → List Char → Nat × List Char
  | 0, acc, cs => (acc, cs)
  | _ + 1, acc, [] => (acc, [])
  | width + 1, acc, c :: rest =>
    match Decimal.digit? c with
    | some d => digitsFrom width (acc * 10 + d) rest
    | none => (acc, c :: rest)

def number (least most : Nat) : Reader Nat := fun cs =>
  let (value, rest) := digitsFrom most 0 cs
  if cs.length - rest.length < least then none else some (value, rest)

/-- A fraction of a second as nanoseconds; digits after the ninth are dropped. -/
def fraction : Reader Nat
  | '.' :: cs => do
    let (value, rest) ← number 1 9 cs
    some (value * Nat.pow 10 (9 - (cs.length - rest.length)), rest.dropWhile Decimal.isDigit)
  | cs => some (0, cs)

inductive OffsetStyle where
  | colon
  | colonOrBlanks
deriving DecidableEq

def OffsetStyle.separator : OffsetStyle → Reader Unit
  | .colon, cs => literal ':' cs
  | .colonOrBlanks, cs => some ((), cs.dropWhile (fun c => c = ':' || Text.isBlank c))

def sign : Reader Bool
  | '+' :: rest => some (false, rest)
  | '-' :: rest | '\u2212' :: rest => some (true, rest)
  | _ => none

def offset (style : OffsetStyle) : Reader Int
  | 'Z' :: rest | 'z' :: rest => some (0, rest)
  | cs => do
    let (negative, cs) ← sign cs
    let (hours, cs) ← number 2 2 cs
    let (_, cs) ← style.separator cs
    let (minutes, cs) ← number 2 2 cs
    if 60 ≤ minutes ∨ 24 ≤ hours then none
    else
      let seconds : Int := hours * 3600 + minutes * 60
      some (if negative then -seconds else seconds, cs)

structure Fields where
  date : Calendar.Date
  hour : Nat
  minute : Nat
  second : Nat
  nanos : Nat
  offset : Int

def firstYear : Int := -262143
def lastYear : Int := 262142

/-- The moment that the fields name. Second 60 is the leap second after second 59. -/
def Fields.dateTime? (f : Fields) : Option DateTime :=
  if f.date.isReal ∧ firstYear ≤ f.date.year ∧ f.date.year ≤ lastYear ∧ f.hour < 24 ∧
      f.minute < 60 ∧ f.second ≤ 60 then
    let leap : Nat := if f.second = 60 then 1 else 0
    let seconds := Calendar.toDays f.date * DateTime.secondsPerDay + f.hour * 3600 +
      f.minute * 60 + (f.second - leap) - f.offset
    if DateTime.firstSecond ≤ seconds ∧ seconds ≤ DateTime.lastSecond then
      some ⟨seconds, leap * 1000000000 + f.nanos⟩
    else none
  else none

def dateEnd : Reader Unit
  | 'T' :: rest | 't' :: rest | ' ' :: rest => some ((), rest)
  | _ => none

def strictFields : Reader Fields := fun cs => do
  let (year, cs) ← number 4 4 cs
  let (_, cs) ← literal '-' cs
  let (month, cs) ← number 2 2 cs
  let (_, cs) ← literal '-' cs
  let (day, cs) ← number 2 2 cs
  let (_, cs) ← dateEnd cs
  let (hour, cs) ← number 2 2 cs
  let (_, cs) ← literal ':' cs
  let (minute, cs) ← number 2 2 cs
  let (_, cs) ← literal ':' cs
  let (second, cs) ← number 2 2 cs
  let (nanos, cs) ← fraction cs
  let (offset, cs) ← offset .colon cs
  some (⟨⟨year, month, day⟩, hour, minute, second, nanos, offset⟩, cs)

def strict? (text : String) : Option DateTime := do
  let (fields, rest) ← strictFields text.toList
  if rest = [] then fields.dateTime? else none

/-- A year with or without a sign; with one it may have any number of digits. -/
def signedYear : Reader Int := fun cs =>
  match cs with
  | '-' :: rest => do
    let (value, rest') ← number 1 rest.length rest
    some (-(value : Int), rest')
  | '+' :: rest => do
    let (value, rest') ← number 1 rest.length rest
    some ((value : Int), rest')
  | _ => do
    let (value, rest') ← number 1 4 cs
    some ((value : Int), rest')

def shortNumber : Reader Nat := fun cs => number 1 2 (Text.trimStart cs)

def spacedLiteral (c : Char) : Reader Unit := fun cs => literal c (Text.trimStart cs)

/-- The word `UTC` in any case, or an offset. -/
def laxOffset : Reader Int
  | u :: t :: c :: rest =>
    if u.toUpper = 'U' ∧ t.toUpper = 'T' ∧ c.toUpper = 'C' then some (0, rest)
    else offset .colonOrBlanks (u :: t :: c :: rest)
  | cs => offset .colonOrBlanks cs

def laxFields : Reader Fields := fun cs => do
  let (year, cs) ← signedYear (Text.trimStart cs)
  let (_, cs) ← spacedLiteral '-' cs
  let (month, cs) ← shortNumber cs
  let (_, cs) ← spacedLiteral '-' cs
  let (day, cs) ← shortNumber cs
  let (_, cs) ← dateEnd cs
  let (hour, cs) ← shortNumber cs
  let (_, cs) ← spacedLiteral ':' cs
  let (minute, cs) ← shortNumber cs
  let (_, cs) ← spacedLiteral ':' cs
  let (second, cs) ← shortNumber cs
  let (nanos, cs) ← fraction cs
  let (offset, cs) ← laxOffset (Text.trimStart cs)
  some (⟨⟨year, month, day⟩, hour, minute, second, nanos, offset⟩, cs)

def lax? (text : String) : Option DateTime := do
  let (fields, rest) ← laxFields text.toList
  if Text.trimStart rest = [] then fields.dateTime? else none

/-- Reads a backup time: whole milliseconds, or a text of RFC 3339; blanks around it are ignored. -/
def timestamp? (text : String) : Option Instant :=
  let trimmed := Text.trim text.toList
  match Decimal.readNat (UInt64.size - 1) trimmed with
  | .ok millis => some (.ofMillis millis.toUInt64)
  | .error _ => (strict? (String.ofList trimmed)).map DateTime.toInstant

end IncrementalBackup.Rfc3339
