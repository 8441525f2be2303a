import IncrementalBackup.Json.Format
import IncrementalBackup.Path.Basic

/-!
# Stored paths

A path is stored as text, so only a path whose bytes are text can be stored.
-/

namespace IncrementalBackup

instance : JsonFormat Path where
  toJson? p := p.text?.map Json.ofString
  ofJson? v := (Json.text? v).map Path.ofString

end IncrementalBackup
