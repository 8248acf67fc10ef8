import Collate.Join.Grouped
import Collate.Join.Inner
import Collate.Json.Comparer
import Collate.Query.Basic
import Collate.Sort.Ordered

/-!
# Running queries

An executor owns a configuration and named datasets. It runs a query step by step on a list
of records. Before the first step it looks at the query, at its own configuration, and at
the datasets that the steps name, and reports the first thing wrong.
-/

set_option autoImplicit false

namespace Collate.Query

/-- A configuration with named datasets. -/
structure Executor where
  config : Config := Config.default
  /-- The datasets, the newest first; of two with one name the newer counts. -/
  datasets : List (String × List Json) := []

/-- The place of the first record that is no object. -/
def firstNonObject? (records : List Json) : Option Nat :=
  records.findIdx? fun r => !r.isObject

/-- Refuses records that are no objects. -/
def requireObjects (step : String) (records : List Json) : Except QueryError Unit :=
  match firstNonObject? records with
  | some record => .error (.invalid (.notObject step record))
  | none => .ok ()

/-- A record with a field put into it, in place of one of that name. -/
def attach (record : Json) (field : String) (value : Json) : Json :=
  match record with
  | .object fields => .object (Json.insertField field value fields)
  | other => other

/-- The record of a group: its key and its elements. -/
def groupRecord (g : Group Json Json) : Json :=
  .ofFields [("key", g.key), ("elements", .array g.elements.toList)]

/-- The path that a text writes, its fault an error of the query. -/
def path (source : String) : Except QueryError KeyPath :=
  match KeyPath.parse source with
  | .ok p => .ok p
  | .error fault => .error (.invalid fault)

/-- The path of an optional text. -/
def path? : Option String → Except QueryError (Option KeyPath)
  | none => .ok none
  | some source => (path source).map some

/-- An operator's result, its error an error of the query. -/
def lift {α : Type} : Except Error α → Except QueryError α
  | .ok a => .ok a
  | .error e => .error (.core e)

/-- What a group step keeps of a record. -/
def select (element : Option KeyPath) (record : Json) : Json :=
  match element with
  | some p => p.valueOrNull record
  | none => record

/-- The records grouped by the value at a path. -/
def runGroup (config : Config) (key : String) (element : Option String) (ignoreCase : Bool)
    (records : List Json) : Except QueryError (List Json) := do
  let key ← path key
  let element ← path? element
  let groups ← lift (Lookup.build (Json.equality ignoreCase) config records key.valueOrNull
    (select element))
  pure (groups.groups.toList.map groupRecord)

/-- The level of a chain that compares the values at a path. -/
def sortLevel (p : KeyPath) (l : OrderLevel) : Sort.Level Json :=
  ⟨Json, p.valueOrNull, Json.order l.ignoreCase, l.direction⟩

/-- The chain of some levels. -/
def sortChain : List OrderLevel → Except QueryError (List (Sort.Level Json))
  | [] => .ok []
  | l :: rest =>
      match path l.key with
      | .error e => .error e
      | .ok p =>
          match sortChain rest with
          | .error e => .error e
          | .ok chain => .ok (sortLevel p l :: chain)

/-- The records in the order of some levels. -/
def runOrder (config : Config) (levels : List OrderLevel) (records : List Json) :
    Except QueryError (List Json) :=
  match sortChain levels with
  | .error e => .error e
  | .ok chain =>
      match Sort.Ordered.ofLevels (Source.ofList records true) chain with
      | .error e => .error (.core e)
      | .ok ordered => .ok (ordered.tuned config).toList

namespace Executor

/-- A dataset put under a name, in place of one that had it. -/
def addDataset (e : Executor) (name : String) (records : List Json) : Executor :=
  { e with datasets := (name, records) :: e.datasets }

/-- The records under a name. -/
def dataset (e : Executor) (name : String) : Except QueryError (List Json) :=
  match e.datasets.find? fun d => d.1 == name with
  | some d => .ok d.2
  | none => .error (.unknownDataset name)

/-- The inner side of a join step, indexed by the value at its path. -/
def indexed (e : Executor) (s : JoinSpec) (innerKey : KeyPath) :
    Except QueryError (Lookup Json Json) := do
  let inner ← e.dataset s.inner
  lift (Lookup.index (Json.equality s.ignoreCase) e.config inner innerKey.lookup)

/-- Each record once per match, with the match attached. -/
def runJoin (e : Executor) (s : JoinSpec) (records : List Json) : Except QueryError (List Json) := do
  requireObjects "join" records
  let outerKey ← path s.outerKey
  let innerKey ← path s.innerKey
  let lookup ← e.indexed s innerKey
  let join : Join Json Json Json := .start (.ofList records true) lookup
  pure (join.toList outerKey.lookup fun o i => attach o s.into i)

/-- Each record once, with the list of its matches attached. -/
def runGroupJoin (e : Executor) (s : JoinSpec) (records : List Json) :
    Except QueryError (List Json) := do
  requireObjects "group_join" records
  let outerKey ← path s.outerKey
  let innerKey ← path s.innerKey
  let lookup ← e.indexed s innerKey
  let join : GroupJoin Json Json Json := .start (.ofList records true) lookup
  pure (join.toList outerKey.lookup fun o is => attach o s.into (.array is.toList))

/-- One step on the records that the one before it gave. -/
def runStep (e : Executor) (step : Step) (records : List Json) : Except QueryError (List Json) :=
  match step with
  | .group key element ignoreCase => runGroup e.config key element ignoreCase records
  | .order levels => runOrder e.config levels records
  | .join s => e.runJoin s records
  | .groupJoin s => e.runGroupJoin s records

/-- Steps one after the other. -/
def runSteps (e : Executor) : List Step → List Json → Except QueryError (List Json)
  | [], records => .ok records
  | step :: rest, records =>
      match e.runStep step records with
      | .error err => .error err
      | .ok records => e.runSteps rest records

/-- Refuses the first name without a dataset. -/
def requireDatasets (e : Executor) : List String → Except QueryError Unit
  | [] => .ok ()
  | name :: rest =>
      match e.dataset name with
      | .error err => .error err
      | .ok _ => e.requireDatasets rest

/-- A query run on a list of records. -/
def run (e : Executor) (q : Query) (input : List Json) : Except QueryError (List Json) :=
  match q.validate with
  | .error err => .error err
  | .ok () =>
      match e.config.validate with
      | .error err => .error (.core err)
      | .ok () =>
          match e.requireDatasets q.datasets with
          | .error err => .error err
          | .ok () => e.runSteps q.steps input

end Executor

end Collate.Query
