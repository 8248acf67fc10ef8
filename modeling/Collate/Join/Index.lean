import Collate.Lookup.Build

/-!
# The indexed side of a join

A join looks its matches up in the inner side, which is indexed once, when the join is
made. An element whose key is absent is not indexed, so it matches nothing.
-/

set_option autoImplicit false

namespace Collate.Lookup

variable {K I : Type}

/-- One inner element put into the index built so far. -/
def indexStep {m : Type → Type} [Monad m] (key : I → m (Option K))
    (built : Except Error (Lookup K I)) (item : I) : m (Except Error (Lookup K I)) :=
  match built with
  | .error e => pure (.error e)
  | .ok l => do
      match ← key item with
      | some k => pure (l.push k item)
      | none => pure (.ok l)

/-- The inner elements under their keys, absent keys left out; the selector may act. -/
def indexM {m : Type → Type} [Monad m] (equality : Equality K) (config : Config) (inner : List I)
    (key : I → m (Option K)) : m (Except Error (Lookup K I)) :=
  inner.foldlM (indexStep key) (configured equality config)

/-- The inner elements under their keys, absent keys left out. -/
def index (equality : Equality K) (config : Config) (inner : List I) (key : I → Option K) :
    Except Error (Lookup K I) :=
  Id.run (indexM equality config inner (fun i => pure (key i)))

/-- The elements of the group at a place; none if there is no such group. -/
def elementsAt (l : Lookup K I) (index : Nat) : Array I :=
  match l.groupAt? index with
  | some g => g.elements
  | none => #[]

end Collate.Lookup
