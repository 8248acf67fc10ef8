import Collate.Error

/-!
# Errors of queries

A query can fail as a document, as a query, on its data or in an operator. `Fault` lists
what makes a query invalid; faults of a step carry the step's number.
-/

set_option autoImplicit false

namespace Collate.Query

/-- Why a file cannot be read as text. -/
inductive FileFault where
  | notFound
  /-- A file stands where a directory is needed. -/
  | notDirectory
  | isDirectory
  /-- A path or one of its names has too many bytes. -/
  | nameTooLong
  | notText
  /-- A fault of the system described by its text alone. -/
  | described (detail : String)
  deriving DecidableEq, Repr

def FileFault.message : FileFault → String
  | .notFound => "No such file or directory (os error 2)"
  | .notDirectory => "Not a directory (os error 20)"
  | .isDirectory => "Is a directory (os error 21)"
  | .nameTooLong => "File name too long (os error 36)"
  | .notText => "stream did not contain valid UTF-8"
  | .described detail => detail

/-- What makes a query invalid. -/
inductive Fault where
  /-- There is nothing to do. -/
  | noSteps
  /-- A key path has no characters but blanks. -/
  | emptyPath
  /-- A key path has nothing between two dots, or before the first, or behind the last. -/
  | emptySegment (path : String)
  /-- An order step has no level. -/
  | noLevels
  /-- A join step names no dataset. -/
  | noInner (step : String)
  /-- A join step names no field to put matches into. -/
  | noInto (step : String)
  /-- A join step was given a record without fields. -/
  | notObject (step : String) (record : Nat)
  /-- A fault in the step with this number, counted from one. -/
  | inStep (number : Nat) (fault : Fault)
  /-- A fault described by its text alone. -/
  | described (detail : String)
  deriving DecidableEq, Repr

def Fault.message : Fault → String
  | .noSteps => "query has no steps"
  | .emptyPath => "key path is empty"
  | .emptySegment path => "key path '" ++ path ++ "' has an empty segment"
  | .noLevels => "order step needs at least one level"
  | .noInner step => step ++ " step has no inner dataset"
  | .noInto step => step ++ " step has no 'into' field"
  | .notObject step record =>
      step ++ " step needs object records; record " ++ toString record ++ " is not an object"
  | .inStep number fault => "step " ++ toString number ++ ": " ++ fault.message
  | .described detail => detail

/-- What can go wrong between a query's text and its result. -/
inductive QueryError where
  | core (error : Error)
  | yaml (detail : String)
  | json (detail : String)
  | io (fault : FileFault)
  | invalid (fault : Fault)
  | unknownDataset (name : String)
  deriving DecidableEq, Repr

/-- The text shown for an error. -/
def QueryError.message : QueryError → String
  | .core error => error.message
  | .yaml detail => "yaml: " ++ detail
  | .json detail => "json: " ++ detail
  | .io fault => "io: " ++ fault.message
  | .invalid fault => "invalid query: " ++ fault.message
  | .unknownDataset name => "unknown dataset '" ++ name ++ "'"

end Collate.Query
