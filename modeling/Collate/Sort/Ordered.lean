import Collate.Config
import Collate.Sort.Execution

/-!
# Ordered sequences

An ordered sequence is a source with a chain of levels, the first of which counts most. The
source is taken and sorted anew for every enumeration.
-/

set_option autoImplicit false

namespace Collate.Sort

/-- A source to be given in the order of a chain of levels. -/
structure Ordered (α : Type) : Type 1 where
  source : Source α
  levels : List (Level α)
  bufferSeed : Nat := Config.default.bufferSeed

namespace Ordered

variable {α : Type}

/-- A source in the order of one level. -/
def orderBy (source : Source α) (level : Level α) : Ordered α :=
  { source := source, levels := [level] }

/-- A source in the order of a chain, which must have a level. -/
def ofLevels (source : Source α) (levels : List (Level α)) : Except Error (Ordered α) :=
  match levels with
  | [] => .error (.invalidArgument "ordering needs at least one sort level")
  | _ :: _ => .ok { source := source, levels := levels }

/-- A level put behind those of the chain. -/
def thenBy (o : Ordered α) (level : Level α) : Ordered α :=
  { o with levels := o.levels ++ [level] }

/-- The sequence buffered as a configuration says. -/
def tuned (o : Ordered α) (config : Config) : Ordered α :=
  { o with bufferSeed := max config.bufferSeed 1 }

def levelCount (o : Ordered α) : Nat := o.levels.length

def directions (o : Ordered α) : List Direction := o.levels.map Level.direction

/-- The source taken, before it is sorted. -/
def execution (o : Ordered α) : Execution α :=
  .ofBuffer (Buffer.ofSource o.bufferSeed o.source) o.levels

/-- One enumeration. -/
def enumerate (o : Ordered α) : Sorted α := o.execution.sorted

/-- The source positions in sorted order. -/
def permutation (o : Ordered α) : Array Nat := o.enumerate.map

/-- All elements in order. -/
def toList (o : Ordered α) : List α := o.enumerate.toList

end Ordered

end Collate.Sort
