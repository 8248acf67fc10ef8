import Collate.Sort.Partition

/-!
# Quicksort by zones

A zone is partitioned, its smaller side is sorted by a nested call and the larger side by
going on, so calls nest only as deep as zones can be halved. Each partition is recorded as
a `Round`. The number of rounds on the way to an entry is limited by a `fuel`; `arrange`
gives as much as the zone has entries, and `none` says that this was not enough.
-/

set_option autoImplicit false

namespace Collate.Sort

/-- One partition of a zone, with the depth of the call that made it. -/
structure Round where
  depth : Nat
  low : Nat
  high : Nat
  cut : Cut
  deriving DecidableEq, Repr

/-- An arrangement with the rounds that led to it. -/
structure Progress where
  map : Array Nat
  rounds : Array Round
  deriving DecidableEq, Repr

namespace Round

/-- The left side of the zone after the partition. -/
def left (r : Round) : Nat × Nat := (r.low, r.cut.high)

/-- The right side of the zone after the partition. -/
def right (r : Round) : Nat × Nat := (r.cut.low, r.high)

/-- The left side has no more positions than the right one. -/
def leftFirst (r : Round) : Bool := r.cut.high + r.cut.low ≤ r.low + r.high

/-- The side that a nested call sorts. -/
def nested (r : Round) : Nat × Nat := if r.leftFirst then r.left else r.right

/-- The side that the same call goes on with. -/
def rest (r : Round) : Nat × Nat := if r.leftFirst then r.right else r.left

end Round

/-- The zone `[low, high)` sorted, unless the fuel runs out. -/
def sortZone (cmp : Ranking) : (fuel depth : Nat) → Progress → (low high : Nat) → Option Progress
  | 0, _, _, _, _ => none
  | fuel + 1, depth, p, low, high =>
      let cut := partition cmp p.map low high
      let round : Round := ⟨depth, low, high, cut⟩
      let p : Progress := ⟨cut.map, p.rounds.push round⟩
      let nested := round.nested
      let rest := round.rest
      let sorted :=
        if nested.1 + 1 < nested.2 then sortZone cmp fuel (depth + 1) p nested.1 nested.2 else some p
      match sorted with
      | none => none
      | some p => if rest.1 + 1 < rest.2 then sortZone cmp fuel depth p rest.1 rest.2 else some p

/-- A whole arrangement sorted; nothing is to be done for fewer than two entries. -/
def arrange? (cmp : Ranking) (map : Array Nat) : Option Progress :=
  if 1 < map.size then sortZone cmp map.size 0 ⟨map, #[]⟩ 0 map.size else some ⟨map, #[]⟩

/-- A whole arrangement sorted. A comparison that denies an entry to be equal to itself may
leave a partition without progress; the arrangement then stays as it was. -/
def arrange (cmp : Ranking) (map : Array Nat) : Progress :=
  (arrange? cmp map).getD ⟨map, #[]⟩

/-- Every comparison of the rounds, in order. -/
def Progress.probes (p : Progress) : List Probe :=
  p.rounds.toList.flatMap fun r => r.cut.probes.toList

end Collate.Sort
