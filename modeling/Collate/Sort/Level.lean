import Collate.Comparer.Order

/-!
# Sort levels

A level of an ordering takes a key from each element and compares keys in a direction.
Levels of one chain may have keys of different types. For one enumeration a level becomes a
`Column`: the keys of all elements, taken once each, compared by position.
-/

set_option autoImplicit false

namespace Collate.Sort

/-- One level of an ordering. -/
structure Level (α : Type) : Type 1 where
  Key : Type
  key : α → Key
  compare : Comparison Key
  direction : Direction

/-- The keys that a level takes from a sequence. -/
structure Column : Type 1 where
  Key : Type
  keys : Array Key
  compare : Comparison Key
  direction : Direction

namespace Level

variable {α : Type}

/-- A level that compares keys in the order of their type. -/
def natural {K : Type} [Ord K] (key : α → K) (direction : Direction) : Level α :=
  ⟨K, key, Comparison.natural, direction⟩

/-- How two elements stand on this level, its direction applied. -/
def rank (l : Level α) (a b : α) : Ordering :=
  l.direction.apply (l.compare (l.key a) (l.key b))

/-- The level with its direction turned around. -/
def flip (l : Level α) : Level α := { l with direction := l.direction.flip }

/-- The keys of a sequence. -/
def column (l : Level α) (items : Array α) : Column :=
  ⟨l.Key, items.map l.key, l.compare, l.direction⟩

end Level

/-- How two elements stand on a chain of levels: the first level that tells them apart decides. -/
def rankChain {α : Type} : List (Level α) → α → α → Ordering
  | [], _, _ => .eq
  | l :: rest, a, b => (l.rank a b).then (rankChain rest a b)

namespace Column

/-- How the elements at two positions stand on this level, its direction applied. -/
def rank (c : Column) (a b : Nat) : Ordering :=
  match c.keys[a]?, c.keys[b]? with
  | some x, some y => c.direction.apply (c.compare x y)
  | _, _ => .eq

end Column

/-- How two positions stand on a chain of columns; a full tie goes to the earlier position. -/
def rankColumns : List Column → Nat → Nat → Ordering
  | [], a, b => compare a b
  | c :: rest, a, b => (c.rank a b).then (rankColumns rest a b)

/-- How many of a chain's columns are asked to tell two positions apart: each as long as
those before it tie. -/
def asked : List Column → Nat → Nat → List Nat
  | [], _, _ => []
  | c :: rest, a, b =>
      1 :: (if c.rank a b = .eq then asked rest a b else rest.map fun _ => 0)

theorem Level.rank_flip {α : Type} (l : Level α) (a b : α) : l.flip.rank a b = (l.rank a b).swap := by
  simp [Level.rank, Level.flip, Direction.flip_apply]

end Collate.Sort
