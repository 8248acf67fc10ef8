import Collate.Buffer
import Collate.Pull
import Collate.Sort.Level
import Collate.Sort.Quick

/-!
# One enumeration of an ordered sequence

An execution holds the buffered elements, one column of keys per level and an arrangement
of the positions, at first the identity. Sorting works on the arrangement alone; `Sorted`
then hands out the elements in its order, each from a slot that it leaves empty.
-/

set_option autoImplicit false

namespace Collate.Sort

/-- Buffered elements, their keys, and the arrangement of their positions. -/
structure Execution (α : Type) : Type 1 where
  items : Array α
  columns : List Column
  map : Array Nat

/-- Elements handed out in the order of an arrangement. -/
structure Sorted (α : Type) where
  slots : Array (Option α)
  map : Array Nat
  /-- The place in the arrangement of the next element. -/
  position : Nat := 0
  deriving Repr

namespace Sorted

variable {α : Type}

/-- The next element if there is one, and the sequence after it. -/
def pull (s : Sorted α) : Option α × Sorted α :=
  match s.map[s.position]? with
  | none => (none, s)
  | some index =>
      let item := (s.slots[index]?).join
      (item, ⟨s.slots.setIfInBounds index none, s.map, s.position + 1⟩)

/-- How many elements are still to come. -/
def remaining (s : Sorted α) : Nat := s.map.size - s.position

/-- The number of elements to come is known. -/
def hint (s : Sorted α) : SizeHint := .exactly s.remaining

/-- All elements still to come. -/
def toList (s : Sorted α) : List α := Pull.collect pull s.remaining s

end Sorted

namespace Execution

variable {α : Type}

/-- The elements of a buffer in their own order, with the keys of every level. -/
def ofBuffer (buffer : Buffer α) (levels : List (Level α)) : Execution α where
  items := buffer.items
  columns := levels.map fun l => l.column buffer.items
  map := Array.range buffer.size

def size (e : Execution α) : Nat := e.items.size

def isEmpty (e : Execution α) : Bool := e.items.isEmpty

/-- How two positions stand: by the levels, then by themselves. -/
def rank (e : Execution α) (a b : Nat) : Ordering := rankColumns e.columns a b

/-- The sort of the arrangement, with its rounds. -/
def progress (e : Execution α) : Progress := arrange e.rank e.map

/-- The execution with its arrangement sorted. -/
def sort (e : Execution α) : Execution α := { e with map := e.progress.map }

/-- The elements in sorted order. -/
def sorted (e : Execution α) : Sorted α := ⟨e.items.map some, e.sort.map, 0⟩

/-- How many keys each level took. -/
def keysTaken (e : Execution α) : List Nat := e.columns.map fun c => c.keys.size

/-- How many comparisons of keys the sort asks of each level. -/
def comparisons (e : Execution α) : List Nat :=
  (e.progress.probes.map fun p => asked e.columns p.pivot p.entry).foldl
    (List.zipWith (· + ·)) (e.columns.map fun _ => 0)

end Execution

end Collate.Sort
