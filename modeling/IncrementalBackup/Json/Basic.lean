/-!
# JSON values

A value keeps its string literals as text where they are text. An escape can name half of a surrogate
pair; such a literal is no text, and is kept as it was written. Numbers with a fraction or an
exponent, and minus zero, are kept as they were written too.
-/

namespace IncrementalBackup

inductive JsonText where
  | text (s : String)
  | unpaired (literal : String)
deriving DecidableEq, Repr

inductive Json where
  | null
  | boolean (value : Bool)
  | integer (value : Int)
  | decimal (literal : String)
  | string (content : JsonText)
  | array (items : List Json)
  | object (members : List (JsonText × Json))

namespace Json

instance : Inhabited Json := ⟨null⟩

def ofString (s : String) : Json := .string (.text s)

def ofNat (n : Nat) : Json := .integer n

def record (members : List (String × Json)) : Json :=
  .object (members.map (fun m => (.text m.1, m.2)))

def ofOption (f : α → Json) : Option α → Json
  | none => .null
  | some a => f a

def list (f : α → Json) (items : List α) : Json := .array (items.map f)

end Json

end IncrementalBackup
