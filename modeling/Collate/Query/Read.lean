import Collate.Query.Decode
import Collate.Yaml.Document

/-!
# Queries in YAML

A query is read from the one document of a YAML text, a mapping, and validated. The names of
its fields, of its sizes and of the kinds of its steps are taken as they are written, whatever
their tags; the other fields of a step are any values. What stands under a name that is not a
field's is passed over.
-/

set_option autoImplicit false

namespace Collate.Query

open Yaml (Node Scalar Expansion follow expand expandName expandSize depthLimit isPublic)

/-- The name that a node stands for, as text. -/
def expandText (anchored : Node.Anchored) (node : Node) : Expansion Document := do
  let name ← expandName anchored node
  pure (.text name)

/-- The sizes of a query. A tag makes a blank a mapping without entries. -/
def expandTuning (anchored : Node.Anchored) (node : Node) : Expansion Document := do
  match ← follow anchored node with
  | .scalar s =>
      match s.absent? with
      | some true => pure .null
      | some false => if s.isBlank then pure (.mapping []) else failure
      | none => failure
  | .mapping _ entries => do
      let entries ← entries.mapM fun (key, value) => do
        let key ← expandText anchored key
        let value ← expandSize anchored value
        pure (key, value)
      pure (.mapping entries)
  | _ => failure

/-- A field of a step, which names the step's kind or has any value. -/
def expandField (anchored : Node.Anchored) (room : Nat) (entry : Node × Node) :
    Expansion (Document × Document) := do
  let key ← expand anchored room entry.1
  let value ←
    if Step.isOp key then expandText anchored entry.2 else expand anchored room entry.2
  pure (key, value)

/-- A step, with room for so many containers inside of it. -/
def expandStep (anchored : Node.Anchored) (room : Nat) (node : Node) : Expansion Document := do
  match ← follow anchored node with
  | .mapping tag entries =>
      if isPublic tag then do
        let entries ← entries.mapM (expandField anchored room)
        pure (.mapping entries)
      else failure
  | .sequence tag (op :: items) =>
      if isPublic tag then do
        let op ← expandText anchored op
        let items ← items.mapM (expand anchored room)
        pure (.sequence (op :: items))
      else failure
  | _ => failure

/-- The steps of a query; a blank stands for none. -/
def expandSteps (anchored : Node.Anchored) (room : Nat) (node : Node) : Expansion Document := do
  match ← follow anchored node with
  | .scalar s => if s.isBlank then pure (.sequence []) else failure
  | .sequence _ items => do
      let items ← items.mapM (expandStep anchored room)
      pure (.sequence items)
  | _ => failure

/-- An entry of a query. -/
def expandEntry (anchored : Node.Anchored) (entry : Node × Node) :
    Expansion (Document × Document) := do
  let name ← expandName anchored entry.1
  let value ←
    if name = "config" then expandTuning anchored entry.2
    else if name = "steps" then expandSteps anchored (depthLimit - 3) entry.2
    else pure .unreadable
  pure (.text name, value)

/-- The query in a YAML text, not validated. -/
def ofYaml? (source : String) : Option Query :=
  match Yaml.Tree.parse? source with
  | none => none
  | some tree =>
      match tree.make? fun entries => entries.mapM (expandEntry tree.anchored) with
      | none => none
      | some entries => ofDocument? (.mapping entries)

/-- The query in a YAML text, if it is valid. -/
def ofYaml (source : String) : Except QueryError Query :=
  match ofYaml? source with
  | none => .error (.yaml "not a query")
  | some q =>
      match q.validate with
      | .ok () => .ok q
      | .error e => .error e

end Collate.Query
