import Collate.Json.Basic
import Collate.Query.Error
import Collate.Text.Blank
import Collate.Text.Lines
import Collate.Text.Numeral

/-!
# Key paths

A key path is a chain of segments written with dots between them. Each segment steps into
a record: by name into an object, by number into an array. Blanks around the whole path are
dropped, blanks inside belong to the segments. What is missing and what is null are alike.
-/

set_option autoImplicit false

namespace Collate.Query

/-- A path into a record. -/
structure KeyPath where
  segments : List String
  deriving DecidableEq, Repr

namespace KeyPath

/-- The path that a text writes. -/
def parse (source : String) : Except Fault KeyPath :=
  let cs := Text.trim source.toList
  if cs.isEmpty then .error .emptyPath
  else
    let segments := Text.splitAt '.' cs
    if segments.any List.isEmpty then .error (.emptySegment (String.ofList cs))
    else .ok ⟨segments.map String.ofList⟩

/-- The text that writes a path. -/
def display (path : KeyPath) : String :=
  String.ofList (Text.joinWith '.' (path.segments.map String.toList))

/-- One step into a value. -/
def step (value : Json) (segment : String) : Option Json :=
  match value with
  | .object fields => Json.fieldOf? segment fields
  | .array items => (Text.word? segment.toList).bind fun i => items[i]?
  | _ => none

/-- A value unless it is null. -/
def present : Json → Option Json
  | .null => none
  | value => some value

/-- The value at the end of a path; none when it is missing or null. -/
def lookup (path : KeyPath) (record : Json) : Option Json :=
  (path.segments.foldlM step record).bind present

/-- The value at the end of a path; null when it is missing. -/
def valueOrNull (path : KeyPath) (record : Json) : Json :=
  (path.lookup record).getD .null

end KeyPath

end Collate.Query
