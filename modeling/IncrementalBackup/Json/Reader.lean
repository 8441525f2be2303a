import IncrementalBackup.Json.Token

/-!
# Reading JSON texts

The reader goes through the tokens with a stack of the arrays and objects it is in.
-/

namespace IncrementalBackup.Json

/-- An array or object that is not complete; what it holds so far is kept in reverse. -/
inductive Frame where
  | items (before : List Json)
  | member (before : List (JsonText × Json)) (key : JsonText)

inductive State where
  | value (stack : List Frame)
  | valueOrEnd (stack : List Frame)
  | key (before : List (JsonText × Json)) (stack : List Frame)
  | keyOrEnd (stack : List Frame)
  | colon (before : List (JsonText × Json)) (key : JsonText) (stack : List Frame)
  | after (value : Json) (stack : List Frame)

def begin? (stack : List Frame) : Token → Option State
  | .scalar v => some (.after v stack)
  | .string s => some (.after (.string s) stack)
  | .beginArray => some (.valueOrEnd stack)
  | .beginObject => some (.keyOrEnd stack)
  | _ => none

def next? : State → Token → Option State
  | .value stack, t => begin? stack t
  | .valueOrEnd stack, .endArray => some (.after (.array []) stack)
  | .valueOrEnd stack, t => begin? (.items [] :: stack) t
  | .key before stack, .string k => some (.colon before k stack)
  | .keyOrEnd stack, .endObject => some (.after (.object []) stack)
  | .keyOrEnd stack, .string k => some (.colon [] k stack)
  | .colon before k stack, .colon => some (.value (.member before k :: stack))
  | .after v (.items before :: stack), .comma => some (.value (.items (v :: before) :: stack))
  | .after v (.items before :: stack), .endArray =>
    some (.after (.array (v :: before).reverse) stack)
  | .after v (.member before k :: stack), .comma => some (.key ((k, v) :: before) stack)
  | .after v (.member before k :: stack), .endObject =>
    some (.after (.object ((k, v) :: before).reverse) stack)
  | _, _ => none

def run? : State → List Token → Option State
  | state, [] => some state
  | state, t :: rest => (next? state t).bind (run? · rest)

def read? (text : String) : Option Json := do
  let tokens ← tokens? text.toList
  match ← run? (.value []) tokens with
  | .after v [] => some v
  | _ => none

end IncrementalBackup.Json
