/-!
# Decimal numbers

Whole numbers as decimal text. The reader goes from left to right and stops at the first thing that
is wrong: a character that is no digit, or a digit with which the number leaves its range.
-/

namespace IncrementalBackup.Decimal

def digit? (c : Char) : Option Nat :=
  if 48 ≤ c.toNat ∧ c.toNat ≤ 57 then some (c.toNat - 48) else none

def isDigit (c : Char) : Bool := (digit? c).isSome

def digits (n : Nat) : List Char := Nat.toDigits 10 n

/-- The digits of a number, filled up with zeros to a least width. -/
def padded (width n : Nat) : List Char :=
  List.replicate (width - (digits n).length) '0' ++ digits n

def ofNat (n : Nat) : String := String.ofList (digits n)

def ofInt : Int → String
  | .ofNat n => ofNat n
  | .negSucc n => "-" ++ ofNat (n + 1)

inductive ReadError where
  | empty
  | invalidDigit
  | tooLarge
  | tooSmall
deriving DecidableEq, Repr

def ReadError.message : ReadError → String
  | .empty => "cannot parse integer from empty string"
  | .invalidDigit => "invalid digit found in string"
  | .tooLarge => "number too large to fit in target type"
  | .tooSmall => "number too small to fit in target type"

def readDigits (limit : Nat) (beyond : ReadError) : Nat → List Char → Except ReadError Nat
  | acc, [] => .ok acc
  | acc, c :: rest =>
    match digit? c with
    | none => .error .invalidDigit
    | some d =>
      if acc * 10 + d ≤ limit then readDigits limit beyond (acc * 10 + d) rest else .error beyond

/-- Reads a number up to `limit`; a plus sign may stand in front. -/
def readNat (limit : Nat) : List Char → Except ReadError Nat
  | [] => .error .empty
  | ['+'] => .error .invalidDigit
  | '+' :: rest => readDigits limit .tooLarge 0 rest
  | cs => readDigits limit .tooLarge 0 cs

/-- Reads a number from `-limit - 1` to `limit`; a sign may stand in front. -/
def readInt (limit : Nat) : List Char → Except ReadError Int
  | [] => .error .empty
  | ['+'] | ['-'] => .error .invalidDigit
  | '+' :: rest => Int.ofNat <$> readDigits limit .tooLarge 0 rest
  | '-' :: rest => (fun n => -Int.ofNat n) <$> readDigits (limit + 1) .tooSmall 0 rest
  | cs => Int.ofNat <$> readDigits limit .tooLarge 0 cs

end IncrementalBackup.Decimal
