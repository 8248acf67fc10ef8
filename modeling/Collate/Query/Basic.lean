import Collate.Comparer.Order
import Collate.Config
import Collate.Query.Path

/-!
# Queries

A query is a list of steps, each of which takes the records that the one before it gave. A
group step gives one record per distinct key, an order step sorts, and a join step attaches
records of a named dataset. Key paths are kept as they are written; `validate` is what
makes sure that they can be read.
-/

set_option autoImplicit false

namespace Collate

namespace Query

/-- One level of an order step. -/
structure OrderLevel where
  key : String
  descending : Bool := false
  ignoreCase : Bool := false
  deriving DecidableEq, Repr

/-- What a join step joins, and where it puts the matches. -/
structure JoinSpec where
  inner : String
  outerKey : String
  innerKey : String
  into : String
  ignoreCase : Bool := false
  deriving DecidableEq, Repr

/-- One step of a query. -/
inductive Step where
  | group (key : String) (element : Option String) (ignoreCase : Bool)
  | order (levels : List OrderLevel)
  /-- Each record once per match, with the match attached. -/
  | join (spec : JoinSpec)
  /-- Each record once, with the list of its matches attached. -/
  | groupJoin (spec : JoinSpec)
  deriving DecidableEq, Repr

/-- The sizes that a query sets; those it leaves out are the caller's. -/
structure Tuning where
  initialBuckets : Option Nat := none
  bufferSeed : Option Nat := none
  deriving DecidableEq, Repr

end Query

/-- A query: its steps, and sizes if it sets any. -/
structure Query where
  tuning : Option Query.Tuning := none
  steps : List Query.Step
  deriving DecidableEq, Repr

namespace Query

namespace OrderLevel

def direction (l : OrderLevel) : Direction := .ofDescending l.descending

/-- Refuses a key path that cannot be read. -/
def validate (l : OrderLevel) : Except Fault Unit := do
  let _ ← KeyPath.parse l.key

end OrderLevel

namespace JoinSpec

/-- Refuses a join without a dataset or a field, then key paths that cannot be read. -/
def validate (name : String) (s : JoinSpec) : Except Fault Unit :=
  if Text.allBlank s.inner.toList then .error (.noInner name)
  else if Text.allBlank s.into.toList then .error (.noInto name)
  else do
    let _ ← KeyPath.parse s.outerKey
    let _ ← KeyPath.parse s.innerKey

/-- The join as a clause. -/
def describe (s : JoinSpec) : String :=
  s.inner ++ " on " ++ s.outerKey ++ " = " ++ s.innerKey ++ " into " ++ s.into

end JoinSpec

namespace Step

/-- The name under which a step is written. -/
def name : Step → String
  | .group .. => "group"
  | .order _ => "order"
  | .join _ => "join"
  | .groupJoin _ => "group_join"

/-- The dataset that a step reads besides its records. -/
def dataset? : Step → Option String
  | .join s => some s.inner
  | .groupJoin s => some s.inner
  | _ => none

/-- The first fault of a step, if it has one. -/
def validate : Step → Except Fault Unit
  | .group key element _ => do
      let _ ← KeyPath.parse key
      match element with
      | some e => do
          let _ ← KeyPath.parse e
      | none => pure ()
  | .order [] => .error .noLevels
  | .order levels => levels.forM OrderLevel.validate
  | .join s => s.validate "join"
  | .groupJoin s => s.validate "group_join"

/-- The mark of a step or level that takes capitals for small letters. -/
def caseMark (ignoreCase : Bool) : String := if ignoreCase then " (ignore case)" else ""

/-- A level as a clause. -/
def describeLevel (l : OrderLevel) : String :=
  l.key ++ (if l.descending then " desc" else " asc") ++ caseMark l.ignoreCase

/-- A step as a line. -/
def describe : Step → String
  | .group key element ignoreCase =>
      let selection :=
        match element with
        | some e => " select " ++ e
        | none => ""
      "group by " ++ key ++ selection ++ caseMark ignoreCase
  | .order levels => "order by " ++ ", then ".intercalate (levels.map describeLevel)
  | .join s => "join " ++ s.describe
  | .groupJoin s => "group_join " ++ s.describe

end Step

namespace Tuning

/-- A configuration with the sizes that are set put in place of its own. -/
def apply (t : Tuning) (base : Config) : Config := base.override t.initialBuckets t.bufferSeed

end Tuning

/-- A fault of a step with the step's number, counted from one. -/
def validateSteps : (number : Nat) → List Step → Except Fault Unit
  | _, [] => .ok ()
  | number, step :: rest =>
      match step.validate with
      | .error fault => .error (.inStep number fault)
      | .ok () => validateSteps (number + 1) rest

/-- Refuses a query without steps, then sizes that cannot be used, then the first faulty step. -/
def validate (q : Query) : Except QueryError Unit :=
  if q.steps.isEmpty then .error (.invalid .noSteps)
  else
    match ((q.tuning.getD {}).apply Config.default).validate with
    | .error e => .error (.core e)
    | .ok () =>
        match validateSteps 1 q.steps with
        | .error fault => .error (.invalid fault)
        | .ok () => .ok ()

/-- A configuration with the query's sizes put in place of its own. -/
def effectiveConfig (q : Query) (base : Config) : Config :=
  match q.tuning with
  | some t => t.apply base
  | none => base

/-- The datasets that the steps read, in order. -/
def datasets (q : Query) : List String := q.steps.filterMap Step.dataset?

/-- One numbered line per step. -/
def explainSteps : (number : Nat) → List Step → String
  | _, [] => ""
  | number, step :: rest =>
      toString number ++ ". " ++ step.describe ++ "\n" ++ explainSteps (number + 1) rest

/-- The steps in words. -/
def explain (q : Query) : String := explainSteps 1 q.steps

end Query

end Collate
