import IncrementalBackup.Json.Basic
import IncrementalBackup.Text.Decimal

/-!
# Tokens of JSON texts

The scanner reads one character after another. Between tokens it looks for what a character starts;
within a string it collects characters and escaped units; letters, digits and signs that follow each
other form one bare word, which is a keyword, a number, or wrong.
-/

namespace IncrementalBackup.Json

inductive Token where
  | beginArray
  | endArray
  | beginObject
  | endObject
  | comma
  | colon
  | scalar (value : Json)
  | string (content : JsonText)

/-- A piece of a string literal: a character, or a 16-bit unit that an escape names. -/
inductive Piece where
  | char (c : Char)
  | unit (value : Nat)
deriving DecidableEq

/-- The pieces as characters; two units that form a surrogate pair are one character. -/
def characters? : List Piece → Option (List Char)
  | [] => some []
  | .char c :: rest => (characters? rest).map (c :: ·)
  | .unit n :: rest =>
    if n < 0xD800 ∨ 0xDFFF < n then (characters? rest).map (Char.ofNat n :: ·)
    else
      match rest with
      | .unit m :: rest' =>
        if n < 0xDC00 ∧ 0xDC00 ≤ m ∧ m ≤ 0xDFFF then
          (characters? rest').map (Char.ofNat (0x10000 + (n - 0xD800) * 0x400 + (m - 0xDC00)) :: ·)
        else none
      | _ => none

def fourDigits (n : Nat) : List Char :=
  let digits := Nat.toDigits 16 n
  List.replicate (4 - digits.length) '0' ++ digits

def shortEscapes : List (Char × Char) :=
  [('"', '"'), ('\\', '\\'), ('\x08', 'b'), ('\x0c', 'f'), ('\n', 'n'), ('\r', 'r'), ('\t', 't')]

def escapeOf? (c : Char) : Option Char := (shortEscapes.find? (fun e => e.1 == c)).map (·.2)

def escaped? (letter : Char) : Option Char :=
  if letter = '/' then some '/' else (shortEscapes.find? (fun e => e.2 == letter)).map (·.1)

def writeChar (c : Char) : List Char :=
  match escapeOf? c with
  | some letter => ['\\', letter]
  | none => if c.toNat < 0x20 then '\\' :: 'u' :: fourDigits c.toNat else [c]

def writePiece : Piece → List Char
  | .char c => writeChar c
  | .unit n => '\\' :: 'u' :: fourDigits n

def contentOf (pieces : List Piece) : JsonText :=
  match characters? pieces with
  | some cs => .text (String.ofList cs)
  | none => .unpaired (String.ofList (pieces.flatMap writePiece))

def leadingDigits (word : List Char) : List Char × List Char :=
  (word.takeWhile Decimal.isDigit, word.dropWhile Decimal.isDigit)

def isExponent : List Char → Bool
  | [] => true
  | e :: rest =>
    let digits := match rest with
      | '+' :: digits | '-' :: digits => digits
      | digits => digits
    (e == 'e' || e == 'E') && digits ≠ [] && digits.all Decimal.isDigit

/-- The end of a number after its whole part: nothing, or a fraction, or an exponent. -/
def isTail : List Char → Bool
  | '.' :: rest =>
    let (digits, rest) := leadingDigits rest
    digits ≠ [] && isExponent rest
  | rest => isExponent rest

def valueOf (digits : List Char) : Nat :=
  digits.foldl (fun n c => n * 10 + (Decimal.digit? c).getD 0) 0

/-- A number; its whole part has no leading zeros. -/
def number? (word : List Char) : Option Json :=
  let (negative, body) := match word with
    | '-' :: body => (true, body)
    | body => (false, body)
  let (digits, rest) := leadingDigits body
  match digits with
  | [] => none
  | '0' :: _ :: _ => none
  | _ =>
    if rest = [] then
      match negative, valueOf digits with
      | true, 0 => some (.decimal "-0")
      | true, n => some (.integer (-n))
      | false, n => some (.integer n)
    else if isTail rest then some (.decimal (String.ofList word))
    else none

def bareValue? (word : List Char) : Option Json :=
  if word = ['n', 'u', 'l', 'l'] then some .null
  else if word = ['t', 'r', 'u', 'e'] then some (.boolean true)
  else if word = ['f', 'a', 'l', 's', 'e'] then some (.boolean false)
  else number? word

def isBare (c : Char) : Bool := c.isAlphanum || c == '+' || c == '-' || c == '.'

/-- Where the scanner stands; what it has collected is kept in reverse. -/
inductive Mode where
  | between
  | bare (word : List Char)
  | within (pieces : List Piece)
  | escape (pieces : List Piece)
  | hex (pieces : List Piece) (missing : Nat) (value : Nat)

def hexDigit? (c : Char) : Option Nat :=
  let n := c.toNat
  if 48 ≤ n ∧ n ≤ 57 then some (n - 48)
  else if 97 ≤ n ∧ n ≤ 102 then some (n - 87)
  else if 65 ≤ n ∧ n ≤ 70 then some (n - 55)
  else none

def start? (c : Char) : Option (List Token × Mode) :=
  match c with
  | ' ' | '\n' | '\t' | '\r' => some ([], .between)
  | '[' => some ([.beginArray], .between)
  | ']' => some ([.endArray], .between)
  | '\x7b' => some ([.beginObject], .between)
  | '\x7d' => some ([.endObject], .between)
  | ',' => some ([.comma], .between)
  | ':' => some ([.colon], .between)
  | '"' => some ([], .within [])
  | _ => if isBare c then some ([], .bare [c]) else none

def step? (mode : Mode) (c : Char) : Option (List Token × Mode) :=
  match mode with
  | .between => start? c
  | .bare word =>
    if isBare c then some ([], .bare (c :: word))
    else do
      let value ← bareValue? word.reverse
      let (tokens, mode) ← start? c
      some (.scalar value :: tokens, mode)
  | .within pieces =>
    if c = '"' then some ([.string (contentOf pieces.reverse)], .between)
    else if c = '\\' then some ([], .escape pieces)
    else if c.toNat < 0x20 then none
    else some ([], .within (.char c :: pieces))
  | .escape pieces =>
    if c = 'u' then some ([], .hex pieces 3 0)
    else (escaped? c).map (fun e => ([], .within (.char e :: pieces)))
  | .hex pieces missing value => do
    let d ← hexDigit? c
    match missing with
    | 0 => some ([], .within (.unit (value * 16 + d) :: pieces))
    | more + 1 => some ([], .hex pieces more (value * 16 + d))

def finish? : Mode → Option (List Token)
  | .between => some []
  | .bare word => (bareValue? word.reverse).map (fun value => [.scalar value])
  | _ => none

def tokensFrom (mode : Mode) : List Char → Option (List Token)
  | [] => finish? mode
  | c :: rest => do
    let (tokens, mode) ← step? mode c
    let later ← tokensFrom mode rest
    some (tokens ++ later)

def tokens? (text : List Char) : Option (List Token) := tokensFrom .between text

end IncrementalBackup.Json
