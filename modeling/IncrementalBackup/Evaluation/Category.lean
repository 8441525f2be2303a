import IncrementalBackup.Comparison
import IncrementalBackup.Json.Format

/-!
# Categories of package data
-/

namespace IncrementalBackup

inductive DataCategory where
  | appData
  | deviceProtectedData
  | externalData
  | obb
  | media
deriving DecidableEq, Repr

namespace DataCategory

def all : List DataCategory := [appData, deviceProtectedData, externalData, obb, media]

def name : DataCategory → String
  | appData => "app_data"
  | deviceProtectedData => "device_protected_data"
  | externalData => "external_data"
  | obb => "obb"
  | media => "media"

def title : DataCategory → String
  | appData => "AppData"
  | deviceProtectedData => "DeviceProtectedData"
  | externalData => "ExternalData"
  | obb => "Obb"
  | media => "Media"

def ofName? (s : String) : Option DataCategory := all.find? (fun c => c.name == s)

def rank : DataCategory → Nat
  | appData => 0
  | deviceProtectedData => 1
  | externalData => 2
  | obb => 3
  | media => 4

theorem rank_injective {a b : DataCategory} (h : a.rank = b.rank) : a = b := by
  cases a <;> cases b <;> simp_all [rank]

theorem ofName?_name (c : DataCategory) : ofName? c.name = some c := by
  cases c <;> decide

def compare (a b : DataCategory) : Ordering := compareBy rank compareNat a b

instance : Std.TransCmp compare := inferInstanceAs (Std.TransCmp (compareBy rank compareNat))

instance : Std.LawfulEqCmp compare :=
  lawfulEqCmp_of_part rank (fun _ _ => rank_injective)

instance : JsonFormat DataCategory where
  toJson? c := some (.ofString c.name)
  ofJson? := Json.choice? ofName?

end DataCategory

end IncrementalBackup
