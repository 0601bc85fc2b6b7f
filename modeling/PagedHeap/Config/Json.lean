import PagedHeap.Config
import PagedHeap.Text.Json

/-! The JSON forms of settings, page ids and page kinds. A record is written as an object with all
of its fields; it is read from such an object, whose other fields are skipped, or from the array of
its fields in order. -/
namespace PagedHeap

/-- A natural number below a bound. -/
def Json.natBelow (bound : Nat) : Json → Option Nat
  | .number (some n) => if n < bound then some n else none
  | _ => none

/-- The values of the named fields: of an object with readable names that has each of them once, or
of an array of just as many items. -/
def Json.record (names : List String) : Json → Option (List Json)
  | .array items => if items.length = names.length then some items else none
  | .object fields =>
    if fields.all fun f => f.1.isSome then names.mapM (field? fields) else none
  | _ => none

def Config.parse (s : String) : Option Config := do
  match ← (← Json.parse s).record ["data_dir", "buffer_pool_frames", "fsync_enabled"] with
  | [.text (some dataDir), frames, .bool fsync] =>
    return ⟨dataDir, ← frames.natBelow UInt64.size, fsync⟩
  | _ => none

def Config.json (c : Config) : String :=
  "\x7b\"data_dir\":" ++ Json.quote c.dataDir ++ ",\"buffer_pool_frames\":" ++ toString c.frames ++
    ",\"fsync_enabled\":" ++ toString c.fsync ++ "\x7d"

def PageId.parse (s : String) : Option PageId := do
  match ← (← Json.parse s).record ["file_id", "page_num"] with
  | [file, page] =>
    return ⟨UInt32.ofNat (← file.natBelow UInt32.size), UInt32.ofNat (← page.natBelow UInt32.size)⟩
  | _ => none

/-- The page kind written in a JSON text: its name, or an object that maps its name to null. -/
def PageKind.parse (s : String) : Option PageKind := do
  match ← Json.parse s with
  | .text (some name) => PageKind.ofName name
  | .object [(some name, .null)] => PageKind.ofName name
  | _ => none

def PageKind.json (k : PageKind) : String := Json.quote k.name

end PagedHeap
