import Collate.Join.Index
import Collate.Pull
import Collate.Source

/-!
# Group joins

A group join gives exactly one result per outer element: the element with all its matches.
An outer element whose key is absent or unmatched has none.
-/

set_option autoImplicit false

namespace Collate

/-- A group join between two pulls. -/
structure GroupJoin (O K I : Type) where
  outer : Source O
  lookup : Lookup K I

namespace GroupJoin

variable {O K I R : Type} {m : Type → Type} [Monad m]

/-- The matches of an outer key. -/
def matchesOf (lookup : Lookup K I) : Option K → Array I
  | some key => lookup.get key
  | none => #[]

/-- The next result, if there is one, and the join after it; the selectors may act. -/
def pullM (outerKey : O → m (Option K)) (result : O → Array I → m R) (j : GroupJoin O K I) :
    m (Option R × GroupJoin O K I) :=
  match j.outer.pull? with
  | none => pure (none, j)
  | some (o, outer) => do
      let key ← outerKey o
      let r ← result o (matchesOf j.lookup key)
      pure (some r, { j with outer := outer })

/-- The next result, if there is one, and the join after it. -/
def pull (outerKey : O → Option K) (result : O → Array I → R) (j : GroupJoin O K I) :
    Option R × GroupJoin O K I :=
  Id.run (pullM (fun o => pure (outerKey o)) (fun o is => pure (result o is)) j)

/-- A group join of an outer source with an indexed inner side, before the first pull. -/
def start (outer : Source O) (lookup : Lookup K I) : GroupJoin O K I := ⟨outer, lookup⟩

/-- As many results are to come as the outer source has elements. -/
def hint (j : GroupJoin O K I) : SizeHint := j.outer.hint

/-- All results still to come. -/
def toList (outerKey : O → Option K) (result : O → Array I → R) (j : GroupJoin O K I) : List R :=
  Pull.collect (pull outerKey result) j.outer.rest.length j

end GroupJoin

end Collate
