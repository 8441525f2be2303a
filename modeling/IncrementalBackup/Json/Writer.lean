import IncrementalBackup.Json.Token

/-!
# Writing JSON texts

Two layouts: everything on one line, or each item and each member on a line of its own, two spaces
deeper than what holds it.
-/

namespace IncrementalBackup.Json

def contentText : JsonText → List Char
  | .text s => s.toList.flatMap writeChar
  | .unpaired literal => literal.toList

def stringText (content : JsonText) : List Char := '"' :: contentText content ++ ['"']

def scalarText : Json → List Char
  | .null => ['n', 'u', 'l', 'l']
  | .boolean true => ['t', 'r', 'u', 'e']
  | .boolean false => ['f', 'a', 'l', 's', 'e']
  | .integer value => (Decimal.ofInt value).toList
  | .decimal literal => literal.toList
  | _ => []

/-- Where line breaks go: nowhere, or before each part of what is nested this deep. -/
inductive Layout where
  | compact
  | indented (depth : Nat)

namespace Layout

def deeper : Layout → Layout
  | compact => compact
  | indented depth => indented (depth + 1)

def lineBreak : Layout → List Char
  | compact => []
  | indented depth => '\n' :: List.replicate (2 * depth) ' '

def colon : Layout → List Char
  | compact => [':']
  | indented _ => [':', ' ']

end Layout

mutual

def write (layout : Layout) : Json → List Char
  | .string content => stringText content
  | .array [] => ['[', ']']
  | .array (item :: rest) =>
    '[' :: layout.deeper.lineBreak ++ write layout.deeper item ++ writeItems layout.deeper rest ++
      layout.lineBreak ++ [']']
  | .object [] => ['\x7b', '\x7d']
  | .object (m :: rest) =>
    '\x7b' :: layout.deeper.lineBreak ++ writeMember layout.deeper m ++
      writeMembers layout.deeper rest ++ layout.lineBreak ++ ['\x7d']
  | value => scalarText value

def writeItems (layout : Layout) : List Json → List Char
  | [] => []
  | item :: rest => ',' :: layout.lineBreak ++ write layout item ++ writeItems layout rest

def writeMember (layout : Layout) : JsonText × Json → List Char
  | (key, value) => stringText key ++ layout.colon ++ write layout value

def writeMembers (layout : Layout) : List (JsonText × Json) → List Char
  | [] => []
  | m :: rest => ',' :: layout.lineBreak ++ writeMember layout m ++ writeMembers layout rest

end

def compact (value : Json) : String := String.ofList (write .compact value)

def pretty (value : Json) : String := String.ofList (write (.indented 0) value)

end IncrementalBackup.Json
