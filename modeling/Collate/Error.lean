/-!
# Errors of the sequence operators

The operators refuse an argument, a configuration or a table that would outgrow a machine
word. Each error is a cause; `Error.message` is the only place that words it.
-/

set_option autoImplicit false

namespace Collate

/-- What a sequence operator refuses. -/
inductive Error where
  /-- An argument lies outside what the operation accepts. -/
  | invalidArgument (detail : String)
  /-- A lookup holding this many groups has no representable bucket count left. -/
  | capacityOverflow (groups : Nat)
  /-- A configuration field has a value no operator can work with. -/
  | config (detail : String)
  /-- A query was refused before it reached the operators. -/
  | query (detail : String)
  /-- A JSON text could not be read. -/
  | json (detail : String)
  deriving DecidableEq, Repr

/-- The text shown for an error. -/
def Error.message : Error → String
  | .invalidArgument detail => "invalid argument: " ++ detail
  | .capacityOverflow groups =>
      "lookup capacity overflow: cannot grow beyond " ++ toString groups ++ " groupings"
  | .config detail => "invalid configuration: " ++ detail
  | .query detail => "query error: " ++ detail
  | .json detail => "json error: " ++ detail

/-- An element was asked for at a position that a sequence does not have. -/
structure OutOfRange where
  size : Nat
  index : Nat
  deriving DecidableEq, Repr

/-- The text shown for a position out of range. -/
def OutOfRange.message (fault : OutOfRange) : String :=
  "index out of bounds: the len is " ++ toString fault.size ++ " but the index is " ++
    toString fault.index

end Collate
