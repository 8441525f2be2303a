import IncrementalBackup.Text.Blank

/-!
# Safe names

An untrusted version name becomes a token that is safe as a component of a path: characters outside
`[A-Za-z0-9._-]` become underscores, and at most fifty are kept. A blank name becomes `unknown`.
-/

namespace IncrementalBackup.Dedup

def maxTokenLength : Nat := 50

def isSafe (c : Char) : Bool := c.isAlphanum || c == '.' || c == '_' || c == '-'

def safeChar (c : Char) : Char := if isSafe c then c else '_'

def sanitize (name : String) : String :=
  if name.toList.all Text.isBlank then "unknown"
  else String.ofList ((name.toList.map safeChar).take maxTokenLength)

end IncrementalBackup.Dedup
