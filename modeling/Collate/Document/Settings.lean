import Collate.Comparer.Order
import Collate.Config
import Collate.Document.Fields

/-!
# Settings in JSON

A configuration is read from a JSON text as an object of its fields or as an array of them;
fields left out keep their defaults. A direction is read from its name, or from an object
that has nothing but the name with null.
-/

set_option autoImplicit false

namespace Collate

namespace Config

/-- The names of the fields, in order. -/
def fieldNames : List String := ["initial_bucket_count", "buffer_seed_capacity"]

/-- A field that, if it is given, must be a machine word. -/
def givenWord? : Option Document → Option (Option Nat)
  | none => some none
  | some d => (Document.word? d).map some

/-- The configuration in a row of fields. -/
def ofRow? : Document.Row → Option Config
  | [buckets, seed] =>
      match givenWord? buckets, givenWord? seed with
      | some buckets, some seed => some (default.override buckets seed)
      | _, _ => none
  | _ => none

/-- The configuration in a document. -/
def ofDocument? : Document → Option Config
  | .mapping entries => (Document.rowOfEntries? .plain fieldNames entries).bind ofRow?
  | .sequence items => (Document.rowOfItems? fieldNames items).bind ofRow?
  | _ => none

/-- The configuration in a JSON text, if it can be used. -/
def ofJson (source : String) : Except Error Config :=
  match (Document.ofJson? source).bind ofDocument? with
  | none => .error (.json "not a configuration")
  | some config =>
      match config.validate with
      | .ok () => .ok config
      | .error e => .error e

end Config

namespace Direction

/-- The direction in a document. -/
def ofDocument? : Document → Option Direction
  | .text name => ofName? name
  | .mapping [(.text name, .null)] => ofName? name
  | _ => none

/-- The direction in a JSON text. -/
def ofJson (source : String) : Except Error Direction :=
  match (Document.ofJson? source).bind ofDocument? with
  | some d => .ok d
  | none => .error (.json "not a direction")

end Direction

end Collate
