/-!
# Hoare's partition

A zone `[low, high)` of an arrangement is split around a pivot entry. Two scans run toward
one another: the left one passes entries before the pivot, the right one entries after it.
Where both stop, the two entries trade places and the scans go on behind them, until the
scans have met. Every comparison is recorded as a `Probe` with the position it looked at.

The comparison is only asked for its answers. What makes the scans stop inside of the zone
is that an entry is equal to itself, so the pivot stops both on the first sweep and the
entries that traded places stop them later.
-/

set_option autoImplicit false

namespace Collate.Sort

/-- A comparison of entries by their numbers. -/
abbrev Ranking := Nat → Nat → Ordering

/-- One comparison: the pivot against the entry found at a position. -/
structure Probe where
  pivot : Nat
  position : Nat
  entry : Nat
  deriving DecidableEq, Repr

/-- The first of so many positions from `i` on whose entry the pivot does not come after. -/
def scanUp (cmp : Ranking) (map : Array Nat) (pivot : Nat) : (room : Nat) → (i : Nat) → Nat
  | 0, i => i
  | room + 1, i =>
      match map[i]? with
      | some entry => if cmp pivot entry = .gt then scanUp cmp map pivot room (i + 1) else i
      | none => i

/-- The end of the positions before `j` once those at the end are dropped whose entry the
pivot comes before. -/
def scanDown (cmp : Ranking) (map : Array Nat) (pivot : Nat) : (j : Nat) → Nat
  | 0 => 0
  | j + 1 =>
      match map[j]? with
      | some entry => if cmp pivot entry = .lt then scanDown cmp map pivot j else j + 1
      | none => j + 1

/-- The comparison made at a position, if there is an entry. -/
def probe? (map : Array Nat) (pivot position : Nat) : Option Probe :=
  (map[position]?).map fun entry => ⟨pivot, position, entry⟩

/-- The comparisons of a scan from `i` up to its stop at `stop`. A position outside of the arrangement
leaves none, so the comparisons alone do not show that nothing is read there: the stops do. -/
def probesUp (map : Array Nat) (pivot i stop : Nat) : List Probe :=
  (List.range' i (stop + 1 - i)).filterMap (probe? map pivot)

/-- The comparisons of a scan from the end `j` down to its stop at the end `stop`, none outside of the
arrangement either. -/
def probesDown (map : Array Nat) (pivot j stop : Nat) : List Probe :=
  (List.range' (stop - 1) (j - (stop - 1))).reverse.filterMap (probe? map pivot)

/-- A zone in the course of being split. -/
structure Cut where
  map : Array Nat
  /-- Positions before this one hold no entry that comes after the pivot. -/
  low : Nat
  /-- Positions from this one on hold no entry that comes before the pivot. -/
  high : Nat
  /-- The comparisons made so far. -/
  probes : Array Probe
  /-- The pairs of positions whose entries traded places. -/
  swaps : Array (Nat × Nat)
  /-- Where the scans of each pass stopped, the left one at a position, the right one at an end. -/
  stops : Array (Nat × Nat)
  deriving DecidableEq, Repr

namespace Cut

/-- A zone before the first scan. -/
def start (map : Array Nat) (low high : Nat) : Cut := ⟨map, low, high, #[], #[], #[]⟩

/-- Both scans run until they stop. -/
def scanned (cmp : Ranking) (pivot : Nat) (c : Cut) : Cut :=
  let i := scanUp cmp c.map pivot (c.map.size - c.low) c.low
  let j := scanDown cmp c.map pivot c.high
  { c with
    low := i
    high := j
    probes := c.probes ++ probesUp c.map pivot c.low i ++ probesDown c.map pivot c.high j
    stops := c.stops.push (i, j) }

/-- The entries where the scans stopped trade places if they are two, and are left behind. -/
def traded (c : Cut) : Cut :=
  { c with
    map := if c.low + 1 < c.high then c.map.swapIfInBounds c.low (c.high - 1) else c.map
    low := c.low + 1
    high := c.high - 1
    swaps := if c.low + 1 < c.high then c.swaps.push (c.low, c.high - 1) else c.swaps }

end Cut

/-- Both scans, then the trade where they stopped, again and again until they have met. -/
def sweep (cmp : Ranking) (pivot : Nat) : (room : Nat) → Cut → Cut
  | 0, c => c
  | room + 1, c =>
      let stopped := c.scanned cmp pivot
      if stopped.high ≤ stopped.low then stopped
      else
        let next := stopped.traded
        if next.high ≤ next.low then next else sweep cmp pivot room next

/-- The position of the pivot: the middle of the zone, the left one of two. -/
def middle (low high : Nat) : Nat := low + (high - 1 - low) / 2

/-- The zone `[low, high)` of an arrangement split around its middle entry. -/
def partition (cmp : Ranking) (map : Array Nat) (low high : Nat) : Cut :=
  match map[middle low high]? with
  | some pivot => sweep cmp pivot (high - low) (.start map low high)
  | none => .start map low high

end Collate.Sort
