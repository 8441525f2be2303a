import IncrementalBackup.Json.Reader
import IncrementalBackup.Json.Writer

/-!
# Stored forms

How values are kept as JSON. A record is an object with its fields by name, or an array with its
fields in order; members that are no fields are skipped, and a field may occur once. A choice is its
name, or an object whose one member has that name and the value `null`.
-/

namespace IncrementalBackup

/-- A type whose values are kept as JSON; not every value need have a text. -/
class JsonFormat (α : Type) where
  toJson? : α → Option Json
  ofJson? : Json → Option α

namespace JsonFormat

variable {α : Type} [JsonFormat α]

def read? (text : String) : Option α := (Json.read? text).bind ofJson?

def compact? (a : α) : Option String := (toJson? a).map Json.compact

def pretty? (a : α) : Option String := (toJson? a).map Json.pretty

end JsonFormat

namespace Json

def valuesOf (name : String) (members : List (JsonText × Json)) : List Json :=
  (members.filter (fun m => m.1 == .text name)).map (·.2)

/-- The value of a field; `none` outside when it occurs twice, inside when it does not occur. -/
def field? (members : List (JsonText × Json)) (name : String) : Option (Option Json) :=
  match valuesOf name members with
  | [] => some none
  | [v] => some (some v)
  | _ => none

def isText : JsonText → Bool
  | .text _ => true
  | .unpaired _ => false

def fields? (names : List String) : Json → Option (List (Option Json))
  | .object members => if members.all (isText ·.1) then names.mapM (field? members) else none
  | .array items =>
    if items.length ≤ names.length then
      some (items.map some ++ List.replicate (names.length - items.length) none)
    else none
  | _ => none

def required? {α : Type} (read : Json → Option α) : Option Json → Option α
  | some v => read v
  | none => none

def defaulted? {α : Type} (value : α) (read : Json → Option α) : Option Json → Option α
  | some v => read v
  | none => some value

def text? : Json → Option String
  | .string (.text s) => some s
  | _ => none

def boolean? : Json → Option Bool
  | .boolean b => some b
  | _ => none

def integer? (least most : Int) : Json → Option Int
  | .integer n => if least ≤ n ∧ n ≤ most then some n else none
  | _ => none

def uint32? (v : Json) : Option UInt32 := (integer? 0 (UInt32.size - 1) v).map (·.toNat.toUInt32)

def uint64? (v : Json) : Option UInt64 := (integer? 0 (UInt64.size - 1) v).map (·.toNat.toUInt64)

def int64? (v : Json) : Option Int64 :=
  (integer? Int64.minValue.toInt Int64.maxValue.toInt v).map Int64.ofInt

def optional? {α : Type} (read : Json → Option α) : Json → Option (Option α)
  | .null => some none
  | v => (read v).map some

def list? {α : Type} (read : Json → Option α) : Json → Option (List α)
  | .array items => items.mapM read
  | _ => none

def choice? {α : Type} (ofName? : String → Option α) : Json → Option α
  | .string (.text name) => ofName? name
  | .object [(.text name, .null)] => ofName? name
  | _ => none

end Json

end IncrementalBackup
