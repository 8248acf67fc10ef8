import Collate.Proofs.Sort.Emission
import Mathlib.Algebra.Group.Nat.Defs

/-!
# The sides of a partition

A partition leaves its scans one or two positions past one another, everything in front of the left
one not after the pivot and everything behind the right one not before it. The nested call takes the
side with fewer positions, so it has at most half of them: a call that is nested so deep has its
zone halved as often, and calls nest no deeper than the binary logarithm of the first zone.
-/

set_option autoImplicit false

namespace Collate.Sort

variable {cmp : Ranking} {depth low high : Nat} {map : Array Nat} {p q : Progress}

/-- **What a partition leaves.** The left scan is where the right one has been, or one further. It has
moved and has not left the zone, and so has the right one. No entry before the left scan comes after
the pivot, none behind the right one comes before it, and one that both have passed ties with it. The
zone holds the same entries, and what is outside of it has not changed. -/
theorem partition_sides (reflexive : ∀ a, cmp a a = .eq) (proper : low + 1 < high) (bound : high ≤ map.size) :
    ∃ pivot, map[middle low high]? = some pivot ∧
      ∃ c, partition cmp map low high = c ∧
        (c.low = c.high ∨ c.low = c.high + 1) ∧
        (low + 1 ≤ c.low ∧ c.low ≤ high) ∧ (low ≤ c.high ∧ c.high + 1 ≤ high) ∧
        Throughout c.map low c.low (fun entry => cmp pivot entry ≠ .lt) ∧
        Throughout c.map c.high high (fun entry => cmp pivot entry ≠ .gt) ∧
        Throughout c.map c.high c.low (fun entry => cmp pivot entry = .eq) ∧
        Rearranged low high map c.map ∧ (c.map.extract low high).Perm (map.extract low high) := by
  obtain ⟨pivot, found, split⟩ := partition_split reflexive (show low < high by omega) bound
  have highInside := split.highInside
  have lowInside := split.lowInside
  refine ⟨pivot, found, _, rfl, split.meet, ⟨split.lowMoved, lowInside⟩, ⟨highInside, split.highMoved⟩,
    split.before, split.behind, ?_, split.rearranged, split.rearranged.zone⟩
  intro k entry lower upper read
  have notBefore := split.before k entry (by omega) upper read
  have notAfter := split.behind k entry lower (by omega) read
  cases answer : cmp pivot entry with
  | lt => exact absurd answer notBefore
  | eq => rfl
  | gt => exact absurd answer notAfter

/-- In a circle of three the first and the last entry trade places around the pivot, which both scans
then pass. -/
theorem partition_sides_overlapping :
    (∀ a, circular a a = .eq) ∧ (1 + 1 < 4 ∧ 4 ≤ #[9, 2, 1, 0, 9].size) ∧
      ∃ c, partition circular #[9, 2, 1, 0, 9] 1 4 = c ∧ c.map = #[9, 0, 1, 2, 9] ∧ (c.low = 3 ∧ c.high = 2) ∧
        Throughout c.map 1 c.low (fun entry => circular 1 entry ≠ .lt) ∧
        Throughout c.map c.high 4 (fun entry => circular 1 entry ≠ .gt) ∧
        Throughout c.map c.high c.low (fun entry => circular 1 entry = .eq) := by
  have reflexive : ∀ a, circular a a = .eq := fun a => if_pos rfl
  obtain ⟨pivot, found, c, made, -, -, -, before, behind, tied, -⟩ :=
    partition_sides reflexive (show 1 + 1 < 4 by decide) (show 4 ≤ #[9, 2, 1, 0, 9].size by decide)
  obtain rfl : 1 = pivot := Option.some.inj found
  refine ⟨reflexive, by decide, c, made, ?_, ?_, before, behind, tied⟩
  · rw [← made]
    rfl
  · rw [← made]
    decide

/-- Of the two sides of a round the nested call takes one of at most half as many positions. The sides
lie in the round's zone, share no position, and together have no more positions than the zone. -/
structure Round.Halves (r : Round) : Prop where
  half : 2 * (r.nested.2 - r.nested.1) ≤ r.high - r.low
  nestedInside : r.low ≤ r.nested.1 ∧ r.nested.2 ≤ r.high
  restInside : r.low ≤ r.rest.1 ∧ r.rest.2 ≤ r.high
  apart : r.nested.2 ≤ r.rest.1 ∨ r.rest.2 ≤ r.nested.1
  both : (r.nested.2 - r.nested.1) + (r.rest.2 - r.rest.1) ≤ r.high - r.low

/-- The smaller side is the nested one, and sides that meet or leave a gap fit in their zone. -/
theorem Split.halves {pivot : Nat} {r : Round} (split : Split cmp pivot map low high r.cut)
    (made : r = roundAt cmp depth map low high) : r.Halves := by
  have meet := split.meet
  have lowInside := split.lowInside
  have highInside := split.highInside
  have lowEq : r.low = low := by rw [made]; rfl
  have highEq : r.high = high := by rw [made]; rfl
  cases first : r.leftFirst with
  | true =>
    have nested : r.nested = r.left := by rw [Round.nested, first]; rfl
    have rest : r.rest = r.right := by rw [Round.rest, first]; rfl
    have fewer : r.cut.high + r.cut.low ≤ r.low + r.high := of_decide_eq_true first
    constructor <;> simp only [nested, rest, Round.left, Round.right] <;> omega
  | false =>
    have nested : r.nested = r.right := by rw [Round.nested, first]; rfl
    have rest : r.rest = r.left := by rw [Round.rest, first]; rfl
    have fewer : ¬ r.cut.high + r.cut.low ≤ r.low + r.high := of_decide_eq_false first
    constructor <;> simp only [nested, rest, Round.left, Round.right] <;> omega

/-- A round belongs to a call that another round has nested, or to one nested in the same side. -/
structure Round.Under (r caller : Round) : Prop where
  deeper : r.depth = caller.depth + 1
  lower : caller.nested.1 ≤ r.low
  upper : r.high ≤ caller.nested.2

/-- One of the rounds that a call at some depth makes of a zone. It stays in the zone, halves its own
part of it, which is half as large with every level of nesting, and stands under another of the rounds
unless it is at the depth of the call. -/
structure Round.Nests (r : Round) (depth low high : Nat) (made : Array Round) : Prop where
  halves : r.Halves
  proper : r.low + 1 < r.high
  lower : low ≤ r.low
  upper : r.high ≤ high
  shrunk : 2 ^ r.depth * (r.high - r.low) ≤ 2 ^ depth * (high - low)
  under : r.depth = depth ∨ ∃ caller ∈ made, r.Under caller

section Calls

variable {r : Round} {first second made : Array Round}

/-- The rounds of a call that another one makes are rounds of the other one. -/
theorem Round.Nests.widen {deep near far : Nat} (nests : r.Nests deep near far first)
    (inside : low ≤ near ∧ far ≤ high) (shrunk : 2 ^ deep * (far - near) ≤ 2 ^ depth * (high - low))
    (top : r.depth = deep → r.depth = depth ∨ ∃ caller ∈ made, r.Under caller)
    (sub : ∀ c ∈ first, c ∈ made) : r.Nests depth low high made where
  halves := nests.halves
  proper := nests.proper
  lower := Nat.le_trans inside.1 nests.lower
  upper := Nat.le_trans nests.upper inside.2
  shrunk := Nat.le_trans nests.shrunk shrunk
  under := by
    rcases nests.under with here | ⟨caller, member, under⟩
    · exact top here
    · exact Or.inr ⟨caller, sub caller member, under⟩

/-- The nested call is one deeper, on a zone of half the size. -/
theorem Round.Nests.ofNested {inner : Round} (nests : inner.Nests (r.depth + 1) r.nested.1 r.nested.2 first)
    (halves : r.Halves) (sub : ∀ c ∈ first, c ∈ made) (here : r ∈ made) :
    inner.Nests r.depth r.low r.high made := by
  have shrunk := calc
    2 ^ (r.depth + 1) * (r.nested.2 - r.nested.1) = 2 ^ r.depth * (2 * (r.nested.2 - r.nested.1)) := by
      rw [Nat.pow_succ, Nat.mul_assoc]
    _ ≤ 2 ^ r.depth * (r.high - r.low) := Nat.mul_le_mul_left _ halves.half
  have called : inner.depth = r.depth + 1 → inner.depth = r.depth ∨ ∃ caller ∈ made, inner.Under caller :=
    fun top => Or.inr ⟨r, here, top, nests.lower, nests.upper⟩
  exact nests.widen halves.nestedInside shrunk called sub

/-- The other side is left to the same call. -/
theorem Round.Nests.ofRest {inner : Round} (nests : inner.Nests r.depth r.rest.1 r.rest.2 second)
    (halves : r.Halves) (sub : ∀ c ∈ second, c ∈ made) : inner.Nests r.depth r.low r.high made := by
  have both := halves.both
  have shrunk := Nat.mul_le_mul_left (2 ^ r.depth) (show r.rest.2 - r.rest.1 ≤ r.high - r.low by omega)
  exact nests.widen halves.restInside shrunk Or.inl sub

/-- **The calls of a run** are nested as its rounds say. -/
theorem Run.nests (run : Run cmp depth p low high q) :
    ∃ made, q.rounds = p.rounds ++ made ∧ ∀ r ∈ made, Round.Nests r depth low high made := by
  induction run with
  | done => exact ⟨#[], by simp, by simp⟩
  | @round depth p mid q low high _ r made proper _ split _ _ nested rest =>
    obtain ⟨first, firstRounds, firstNests⟩ := nested
    obtain ⟨second, secondRounds, secondNests⟩ := rest
    have halves := split.halves made
    obtain rfl : r.depth = depth := by rw [made]; rfl
    obtain rfl : r.low = low := by rw [made]; rfl
    obtain rfl : r.high = high := by rw [made]; rfl
    refine ⟨#[r] ++ first ++ second, ?_, ?_⟩
    · rw [secondRounds, firstRounds, Progress.record, Array.push_eq_append]
      simp only [Array.append_assoc]
    · intro inner member
      simp only [Array.mem_append, Array.mem_singleton] at member
      rcases member with (rfl | member) | member
      · exact ⟨halves, proper, Nat.le_refl _, Nat.le_refl _, Nat.le_refl _, Or.inl rfl⟩
      · exact (firstNests inner member).ofNested halves (fun c inFirst => by simp [inFirst]) (by simp)
      · exact (secondNests inner member).ofRest halves fun c inSecond => by simp [inSecond]

/-- A zone of two positions or more cannot be halved more often than its size allows. -/
theorem Round.Nests.depth_le (nests : r.Nests 0 low high made) : r.depth ≤ Nat.log2 (high - low) := by
  have proper := nests.proper
  have lower := nests.lower
  have upper := nests.upper
  rw [Nat.le_log2 (by omega)]
  calc 2 ^ r.depth ≤ 2 ^ r.depth * (r.high - r.low) := Nat.le_mul_of_pos_right _ (by omega)
    _ ≤ high - low := by simpa using nests.shrunk

end Calls

/-- Of a progress from nothing: every round halves its zone, and calls nest only inside the sides that
rounds leave to them and no deeper than the binary logarithm of a size. -/
structure Progress.CallsHalve (q : Progress) (size : Nat) : Prop where
  halves : ∀ r ∈ q.rounds, r.Halves
  nested : ∀ r ∈ q.rounds, r.depth = 0 ∨ ∃ caller ∈ q.rounds, r.Under caller
  shallow : ∀ r ∈ q.rounds, r.depth ≤ Nat.log2 size

theorem Run.callsHalve (run : Run cmp 0 ⟨map, #[]⟩ low high q) : q.CallsHalve (high - low) := by
  obtain ⟨made, rounds, nests⟩ := run.nests
  rw [Array.empty_append] at rounds
  rw [← rounds] at nests
  exact ⟨fun r member => (nests r member).halves, fun r member => (nests r member).under,
    fun r member => (nests r member).depth_le⟩

/-- **Calls take the smaller side.** Whatever the comparison answers beyond calling every entry equal to
itself, the sort of a zone ends, each of its nested calls has at most half of the positions that were
just partitioned and none of those that the caller goes on with, and calls nest no deeper than the
binary logarithm of the zone's size; so it is with the sort of a whole arrangement. -/
theorem calls_halve (reflexive : ∀ a, cmp a a = .eq) (map : Array Nat) :
    (∀ low high, low + 1 < high → high ≤ map.size →
      ∃ q, (∀ fuel, high - low ≤ fuel → sortZone cmp fuel 0 ⟨map, #[]⟩ low high = some q) ∧
        q.CallsHalve (high - low)) ∧
    arrange? cmp map = some (arrange cmp map) ∧ (arrange cmp map).CallsHalve map.size := by
  refine ⟨?_, arrange?_eq reflexive map, (run_arrange reflexive map).callsHalve⟩
  intro low high proper bound
  obtain ⟨q, run⟩ := exists_run reflexive 0 ⟨map, #[]⟩ low high bound
  exact ⟨q, fun fuel enough => run.sortZone_eq proper enough, run.callsHalve⟩

/-- Seven entries in a circle take a nested call, of three positions, and could take no deeper one than
the second. -/
theorem calls_halve_circular :
    (∀ a, circular a a = .eq) ∧ (1 + 1 < 8 ∧ 8 ≤ #[9, 0, 1, 2, 3, 4, 5, 6, 9].size) ∧
      ∃ q, sortZone circular 7 0 ⟨#[9, 0, 1, 2, 3, 4, 5, 6, 9], #[]⟩ 1 8 = some q ∧
        (∀ r ∈ q.rounds, r.Halves ∧ r.depth ≤ 2) ∧
        ∃ r ∈ q.rounds, (r.low = 1 ∧ r.high = 4) ∧ ∃ caller ∈ q.rounds, r.Under caller := by
  have reflexive : ∀ a, circular a a = .eq := fun a => if_pos rfl
  obtain ⟨q, fuelled, calls⟩ :=
    (calls_halve reflexive #[9, 0, 1, 2, 3, 4, 5, 6, 9]).1 1 8 (by decide) (by decide)
  have sorted := fuelled 7 (by decide)
  have nested : ∃ r ∈ q.rounds, (r.low = 1 ∧ r.high = 4) ∧ r.depth = 1 := by
    obtain rfl : _ = q := Option.some.inj sorted
    decide +kernel
  obtain ⟨r, member, zone, deep⟩ := nested
  refine ⟨reflexive, by decide, q, sorted, fun r member => ⟨calls.halves r member, calls.shallow r member⟩,
    r, member, zone, ?_⟩
  exact (calls.nested r member).resolve_left (by omega)

end Collate.Sort
