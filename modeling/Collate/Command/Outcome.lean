import Collate.Command.Arguments
import Collate.Json.Printer
import Collate.Query.Executor
import Collate.Query.Read
import Collate.Query.Record

/-!
# What a command does

A command reads files and two environment variables, and ends with an exit code and texts
on both outputs. A command line that asks for nothing known ends with code 2, a failure with
code 1 and a line on the error output.
-/

set_option autoImplicit false

namespace Collate.Command

open Collate.Query

/-- How a command ends. -/
structure Outcome where
  exitCode : Nat := 0
  stdout : String := ""
  stderr : String := ""
  deriving DecidableEq, Repr

/-- What a command finds around it. -/
structure World where
  file : String → Except FileFault String
  setting : String → Option String

/-- Why a command fails. -/
inductive Failure where
  /-- The query's own file cannot be read. -/
  | queryFile (fault : FileFault)
  | query (error : QueryError)
  | core (error : Error)
  /-- A dataset is not given as a name and a file. -/
  | dataset (spec : String)

def Failure.message : Failure → String
  | .queryFile fault => fault.message
  | .query error => error.message
  | .core error => error.message
  | .dataset spec => "--inner expects NAME=FILE, got '" ++ spec ++ "'"

/-- The query in a file. -/
def readQuery (w : World) (path : String) : Except Failure Query :=
  match w.file path with
  | .error fault => .error (.queryFile fault)
  | .ok text =>
      match Query.ofYaml text with
      | .ok q => .ok q
      | .error e => .error (.query e)

/-- The records in a file. -/
def readRecords (w : World) (path : String) : Except Failure (List Json) :=
  match loadRecords (w.file path) with
  | .ok records => .ok records
  | .error e => .error (.query e)

/-- The name and the file of a dataset; neither may be empty. -/
def splitSpec? (spec : String) : Option (String × String) :=
  let cs := spec.toList
  match cs.takeWhile (· != '='), cs.dropWhile (· != '=') with
  | _ :: _, _ :: _ :: _ =>
      some (String.ofList (cs.takeWhile (· != '=')), String.ofList ((cs.dropWhile (· != '=')).drop 1))
  | _, _ => none

/-- The sizes from the environment, overridden by the query's and those by the arguments'. -/
def effectiveConfig (w : World) (a : RunArguments) (q : Query) : Config :=
  let base := Config.ofTexts (w.setting "SEQOPS_INITIAL_BUCKETS") (w.setting "SEQOPS_BUFFER_SEED")
  (q.effectiveConfig base).override a.initialBuckets a.bufferSeed

/-- The datasets read into an executor, in order. -/
def addDatasets (w : World) : List String → Executor → Except Failure Executor
  | [], e => .ok e
  | spec :: rest, e =>
      match splitSpec? spec with
      | none => .error (.dataset spec)
      | some (name, path) =>
          match readRecords w path with
          | .error f => .error f
          | .ok records => addDatasets w rest (e.addDataset name records)

/-- The records that a run gives. -/
def runQuery (w : World) (a : RunArguments) : Except Failure (List Json) := do
  let q ← readQuery w a.query
  let config := effectiveConfig w a q
  match config.validate with
  | .error e => .error (.core e)
  | .ok () =>
      let executor ← addDatasets w a.inner { config := config }
      let input ← readRecords w a.input
      match executor.run q input with
      | .ok records => .ok records
      | .error e => .error (.query e)

/-- The end of a command that fails, the line led by some words. -/
def failed (lead : String) (f : Failure) : Outcome :=
  { exitCode := 1, stderr := lead ++ f.message ++ "\n" }

/-- How a command ends. -/
def execute (w : World) : Command → Outcome
  | .run a =>
      match runQuery w a with
      | .ok records =>
          let result : Json := .array records
          { stdout := (if a.pretty then result.pretty else result.compact) ++ "\n" }
      | .error f => failed "Error: " f
  | .validate path =>
      match readQuery w path with
      | .ok _ => { stdout := "✓ Query is valid\n" }
      | .error f => failed "Validation failed: " f
  | .explain path =>
      match readQuery w path with
      | .ok q => { stdout := "Query Steps\n===========\n" ++ q.explain }
      | .error f => failed "Error: " f

/-- How a command line ends. -/
def outcome (w : World) (arguments : List String) : Outcome :=
  match ofArguments? arguments with
  | some (.command command) => execute w command
  | some (.help topic) => { stdout := topic.text }
  | none => { exitCode := 2 }

/-- The files that a command may read. -/
def paths : Command → List String
  | .run a => a.query :: a.input :: (a.inner.filterMap splitSpec?).map Prod.snd
  | .validate path => [path]
  | .explain path => [path]

end Collate.Command
