/-!
# Bytes as hexadecimal text

Two digits for each byte, in lower case.
-/

namespace IncrementalBackup.Hex

def digit (n : Nat) : Char :=
  if n % 16 < 10 then Char.ofNat (48 + n % 16) else Char.ofNat (87 + n % 16)

def ofByte (b : UInt8) : List Char := [digit (b.toNat / 16), digit b.toNat]

def ofBytes (bytes : List UInt8) : List Char := bytes.flatMap ofByte

def digit? (c : Char) : Option Nat :=
  let n := c.toNat
  if 48 ≤ n ∧ n ≤ 57 then some (n - 48)
  else if 97 ≤ n ∧ n ≤ 102 then some (n - 87)
  else if 65 ≤ n ∧ n ≤ 70 then some (n - 55)
  else none

def toBytes? : List Char → Option (List UInt8)
  | [] => some []
  | [_] => none
  | a :: b :: rest => do
    let high ← digit? a
    let low ← digit? b
    some ((high * 16 + low).toUInt8 :: (← toBytes? rest))

end IncrementalBackup.Hex
