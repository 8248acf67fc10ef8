import Collate.Document.Fields
import Collate.Query.Basic

/-!
# Queries in documents

A query is decoded from a document. A step or level is a mapping of its fields or a
sequence of them; a step is told apart by its `op`, which in a sequence comes first. The
fields of a step are looked at only after the whole step has been found readable.
-/

set_option autoImplicit false

namespace Collate.Query

/-- The row of a part that may be a mapping or a sequence. -/
def row? (names : List String) : Document → Option Document.Row
  | .mapping entries => Document.rowOfEntries? .byPlace names entries
  | .sequence items => Document.rowOfItems? names items
  | _ => none

namespace OrderLevel

/-- The level in a row of fields. -/
def ofRow? : Document.Row → Option OrderLevel
  | [key, descending, ignoreCase] =>
      match Document.text? key, Document.flag? descending, Document.flag? ignoreCase with
      | some key, some descending, some ignoreCase => some ⟨key, descending, ignoreCase⟩
      | _, _, _ => none
  | _ => none

/-- The level in a document. -/
def ofDocument? (d : Document) : Option OrderLevel :=
  (row? ["key", "descending", "ignore_case"] d).bind ofRow?

end OrderLevel

namespace Step

/-- The group step in a row of fields. -/
def groupOfRow? : Document.Row → Option Step
  | [key, element, ignoreCase] =>
      match Document.text? key, Document.optionalText? element, Document.flag? ignoreCase with
      | some key, some element, some ignoreCase => some (.group key element ignoreCase)
      | _, _, _ => none
  | _ => none

/-- The order step in a row of fields. -/
def orderOfRow? : Document.Row → Option Step
  | [some (.sequence levels)] => (levels.mapM OrderLevel.ofDocument?).map .order
  | _ => none

/-- The join in a row of fields. -/
def joinOfRow? : Document.Row → Option JoinSpec
  | [inner, outerKey, innerKey, into, ignoreCase] =>
      match Document.text? inner, Document.text? outerKey, Document.text? innerKey,
        Document.text? into, Document.flag? ignoreCase with
      | some inner, some outerKey, some innerKey, some into, some ignoreCase =>
          some ⟨inner, outerKey, innerKey, into, ignoreCase⟩
      | _, _, _, _, _ => none
  | _ => none

/-- The names of a join's fields, in order. -/
def joinFields : List String := ["inner", "outer_key", "inner_key", "into", "ignore_case"]

/-- The step of a given name whose fields are in a document. -/
def ofBody? (op : String) (body : Document) : Option Step :=
  if op = "group" then (row? ["key", "element", "ignore_case"] body).bind groupOfRow?
  else if op = "order" then (row? ["levels"] body).bind orderOfRow?
  else if op = "join" then ((row? joinFields body).bind joinOfRow?).map .join
  else if op = "group_join" then ((row? joinFields body).bind joinOfRow?).map .groupJoin
  else none

/-- The key that tells steps apart. -/
def isOp : Document → Bool
  | .text s => s == "op"
  | _ => false

/-- The step in a document. -/
def ofDocument? (d : Document) : Option Step :=
  if d.readable then
    match d with
    | .mapping entries =>
        match entries.partition fun entry => isOp entry.1 with
        | ([(_, .text op)], fields) => ofBody? op (.mapping fields)
        | _ => none
    | .sequence (.text op :: items) => ofBody? op (.sequence items)
    | _ => none
  else none

end Step

/-- The row of a query or of its sizes, a mapping or a sequence. -/
def plainRow? (rule : Document.KeyRule) (names : List String) : Document → Option Document.Row
  | .mapping entries => Document.rowOfEntries? rule names entries
  | .sequence items => Document.rowOfItems? names items
  | _ => none

namespace Tuning

/-- The sizes in a row of fields. -/
def ofRow? : Document.Row → Option Tuning
  | [buckets, seed] =>
      match Document.optionalWord? buckets, Document.optionalWord? seed with
      | some buckets, some seed => some ⟨buckets, seed⟩
      | _, _ => none
  | _ => none

/-- The sizes of a query, if it sets any. -/
def ofField? : Option Document → Option (Option Tuning)
  | none => some none
  | some .null => some none
  | some d =>
      ((plainRow? .strict ["initial_bucket_count", "buffer_seed_capacity"] d).bind ofRow?).map some

end Tuning

/-- The steps of a query. -/
def stepsOfField? : Option Document → Option (List Step)
  | some (.sequence items) => items.mapM Step.ofDocument?
  | _ => none

/-- The query in a row of fields. -/
def ofRow? : Document.Row → Option Query
  | [tuning, steps] =>
      match Tuning.ofField? tuning, stepsOfField? steps with
      | some tuning, some steps => some ⟨tuning, steps⟩
      | _, _ => none
  | _ => none

/-- The query in a document. -/
def ofDocument? (d : Document) : Option Query :=
  (plainRow? .plain ["config", "steps"] d).bind ofRow?

/-- The query in a JSON text, not validated. -/
def ofJson (source : String) : Except QueryError Query :=
  match (Document.ofJson? source).bind ofDocument? with
  | some q => .ok q
  | none => .error (.json "not a query")

end Collate.Query
