import Collate.Lookup.Basic

/-!
# Grouping a sequence

A lookup is built from a list by a key and an element selector. `buildM` lets the selectors
act in a monad, which shows when they are called: once per item, in order, the key before
the element. `build` is the pure case. A usable configuration may ask for any number of buckets:
that there is memory for them is assumed, so only the configuration and a count that passes a
machine word make a build fail.
-/

set_option autoImplicit false

namespace Collate.Lookup

variable {K V α : Type}

/-- A lookup whose bucket count comes from a configuration that is found to be usable. -/
def configured (equality : Equality K) (config : Config) : Except Error (Lookup K V) :=
  match config.validate with
  | .ok () => .ok (empty equality config.initialBuckets)
  | .error e => .error e

/-- One item put into the lookup built so far. -/
def collectStep {m : Type → Type} [Monad m] (key : α → m K) (element : α → m V)
    (built : Except Error (Lookup K V)) (item : α) : m (Except Error (Lookup K V)) :=
  match built with
  | .error e => pure (.error e)
  | .ok l => do
      let k ← key item
      let v ← element item
      pure (l.push k v)

/-- The items grouped under their keys, each as its element; the selectors may act. -/
def buildM {m : Type → Type} [Monad m] (equality : Equality K) (config : Config) (items : List α)
    (key : α → m K) (element : α → m V) : m (Except Error (Lookup K V)) :=
  items.foldlM (collectStep key element) (configured equality config)

/-- The items grouped under their keys, each as its element. -/
def build (equality : Equality K) (config : Config) (items : List α) (key : α → K)
    (element : α → V) : Except Error (Lookup K V) :=
  Id.run (buildM equality config items (fun x => pure (key x)) (fun x => pure (element x)))

/-- The items put in one after the other. -/
def insertAll (l : Lookup K V) (pairs : List (K × V)) : Lookup K V :=
  pairs.foldl (fun l p => l.insert p.1 p.2) l

/-- The items pushed one after the other, up to the first push that fails. -/
def pushAll (l : Lookup K V) (pairs : List (K × V)) : Except Error (Lookup K V) :=
  pairs.foldlM (fun l p => l.push p.1 p.2) l

theorem insertAll_append (l : Lookup K V) (xs ys : List (K × V)) :
    l.insertAll (xs ++ ys) = (l.insertAll xs).insertAll ys := by
  simp [insertAll, List.foldl_append]

end Collate.Lookup
