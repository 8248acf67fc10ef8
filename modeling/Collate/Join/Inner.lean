import Collate.Join.Index
import Collate.Pull
import Collate.Source

/-!
# Inner joins

An inner join gives one result per outer element and match. It streams: a pull takes outer
elements only until one of them has a match, and the matches of that element are given
before the next outer element is taken. Outer elements whose key is absent or unmatched are
passed over.
-/

set_option autoImplicit false

namespace Collate

/-- The outer element whose matches are being given. -/
structure JoinCursor (O : Type) where
  outer : O
  /-- The place of its group. -/
  group : Nat
  /-- The next match in the group. -/
  position : Nat

/-- An inner join between two pulls. -/
structure Join (O K I : Type) where
  outer : Source O
  lookup : Lookup K I
  current : Option (JoinCursor O) := none

namespace Join

variable {O K I R : Type} {m : Type → Type} [Monad m]

/-- The next result of the current outer element, and the join after it. -/
def ready? (j : Join O K I) : Option (O × I × Join O K I) :=
  match j.current with
  | none => none
  | some c =>
      match (j.lookup.elementsAt c.group)[c.position]? with
      | some i => some (c.outer, i, { j with current := some { c with position := c.position + 1 } })
      | none => none

/-- The first outer element from here on that has a match, given with its first match. -/
def advanceM (lookup : Lookup K I) (sized : Bool) (outerKey : O → m (Option K))
    (result : O → I → m R) : List O → (taken : Nat) → m (Option R × Join O K I)
  | [], taken => pure (none, { outer := ⟨[], sized, taken⟩, lookup := lookup })
  | o :: rest, taken => do
      match ← outerKey o with
      | none => advanceM lookup sized outerKey result rest (taken + 1)
      | some key =>
          match lookup.indexOf? key with
          | none => advanceM lookup sized outerKey result rest (taken + 1)
          | some group =>
              match (lookup.elementsAt group)[0]? with
              | none => advanceM lookup sized outerKey result rest (taken + 1)
              | some i => do
                  let r ← result o i
                  pure (some r,
                    { outer := ⟨rest, sized, taken + 1⟩, lookup := lookup, current := some ⟨o, group, 1⟩ })

/-- The next result, if there is one, and the join after it; the selectors may act. -/
def pullM (outerKey : O → m (Option K)) (result : O → I → m R) (j : Join O K I) :
    m (Option R × Join O K I) :=
  match j.ready? with
  | some (o, i, next) => do
      let r ← result o i
      pure (some r, next)
  | none => advanceM j.lookup j.outer.sized outerKey result j.outer.rest j.outer.taken

/-- The next result, if there is one, and the join after it. -/
def pull (outerKey : O → Option K) (result : O → I → R) (j : Join O K I) :
    Option R × Join O K I :=
  Id.run (pullM (fun o => pure (outerKey o)) (fun o i => pure (result o i)) j)

/-- A join of an outer source with an indexed inner side, before the first pull. -/
def start (outer : Source O) (lookup : Lookup K I) : Join O K I :=
  { outer := outer, lookup := lookup }

/-- How many results are still to come is not known. -/
def hint (_ : Join O K I) : SizeHint := .unknown

/-- No more results than this can come. -/
def bound (j : Join O K I) : Nat := (j.outer.rest.length + 1) * j.lookup.flatten.length

/-- All results still to come. -/
def toList (outerKey : O → Option K) (result : O → I → R) (j : Join O K I) : List R :=
  Pull.collect (pull outerKey result) j.bound j

end Join

end Collate
