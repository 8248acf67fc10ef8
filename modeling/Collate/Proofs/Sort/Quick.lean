import Collate.Proofs.Sort.Partition
import Collate.Sort.Quick

/-!
# Quicksort under any comparison

A `Run` is the sort of a zone without its fuel: a round, the nested side, the other side. A
comparison that calls every entry equal to itself has a run on each zone, and as much fuel as the
zone has positions is enough to follow it. What a run does to the arrangement and where its
rounds look is then shown by induction on the run.
-/

set_option autoImplicit false

namespace Collate.Sort

/-- The round that partitions a zone. -/
def roundAt (cmp : Ranking) (depth : Nat) (map : Array Nat) (low high : Nat) : Round :=
  ⟨depth, low, high, partition cmp map low high⟩

/-- The arrangement a round leaves, with the round recorded. -/
def Progress.record (p : Progress) (r : Round) : Progress := ⟨r.cut.map, p.rounds.push r⟩

/-- The sort of a zone as a derivation. -/
inductive Run (cmp : Ranking) : (depth : Nat) → Progress → (low high : Nat) → Progress → Prop
  | done {depth : Nat} {p : Progress} {low high : Nat} (short : high ≤ low + 1) : Run cmp depth p low high p
  | round {depth : Nat} {p mid q : Progress} {low high pivot : Nat} (r : Round)
      (made : r = roundAt cmp depth p.map low high)
      (proper : low + 1 < high)
      (found : p.map[middle low high]? = some pivot)
      (split : Split cmp pivot p.map low high r.cut)
      (nested : Run cmp (depth + 1) (p.record r) r.nested.1 r.nested.2 mid)
      (rest : Run cmp depth mid r.rest.1 r.rest.2 q) : Run cmp depth p low high q

/-- A side of a zone sorted if it has two entries. -/
def sortSide (cmp : Ranking) (fuel depth : Nat) (p : Progress) (side : Nat × Nat) : Option Progress :=
  if side.1 + 1 < side.2 then sortZone cmp fuel depth p side.1 side.2 else some p

theorem sortZone_succ (cmp : Ranking) (fuel depth : Nat) (p : Progress) (low high : Nat) :
    sortZone cmp (fuel + 1) depth p low high =
      let r := roundAt cmp depth p.map low high
      (sortSide cmp fuel (depth + 1) (p.record r) r.nested).bind fun q =>
        sortSide cmp fuel depth q r.rest := by
  dsimp only
  cases sorted : sortSide cmp fuel (depth + 1) (p.record (roundAt cmp depth p.map low high))
      (roundAt cmp depth p.map low high).nested with
  | none =>
    unfold sortSide roundAt Progress.record at sorted
    dsimp only at sorted
    rw [sortZone, sorted]
    rfl
  | some q =>
    unfold sortSide roundAt Progress.record at sorted
    dsimp only at sorted
    rw [sortZone, sorted]
    rfl

/-- The sides of a round, in the order in which they are sorted. -/
theorem Round.sides (r : Round) :
    (r.nested = r.left ∧ r.rest = r.right) ∨ (r.nested = r.right ∧ r.rest = r.left) := by
  unfold Round.nested Round.rest
  cases r.leftFirst
  · exact Or.inr ⟨rfl, rfl⟩
  · exact Or.inl ⟨rfl, rfl⟩

/-- A zone that is left to be sorted in another. -/
structure Side (low high : Nat) (side : Nat × Nat) : Prop where
  lower : low ≤ side.1
  upper : side.2 ≤ high
  shorter : side.2 - side.1 < high - low

/-- Both sides of a round lie in its zone and are shorter. -/
theorem Split.sides {cmp : Ranking} {depth pivot low high : Nat} {map : Array Nat} {r : Round}
    (s : Split cmp pivot map low high r.cut) (made : r = roundAt cmp depth map low high) :
    Side low high r.nested ∧ Side low high r.rest := by
  have lowMoved := s.lowMoved
  have lowInside := s.lowInside
  have highMoved := s.highMoved
  have highInside := s.highInside
  have lowEq : r.low = low := by rw [made]; rfl
  have highEq : r.high = high := by rw [made]; rfl
  have left : Side low high r.left :=
    ⟨Nat.le_of_eq lowEq.symm, Nat.le_of_lt highMoved, by simp only [Round.left]; omega⟩
  have right : Side low high r.right :=
    ⟨Nat.le_of_lt lowMoved, Nat.le_of_eq highEq, by simp only [Round.right]; omega⟩
  rcases r.sides with ⟨nested, rest⟩ | ⟨nested, rest⟩
  · rw [nested, rest]
    exact ⟨left, right⟩
  · rw [nested, rest]
    exact ⟨right, left⟩

section Runs

variable {cmp : Ranking} {depth low high : Nat} {p q : Progress}

/-- A run rearranges its zone. -/
theorem Run.rearranged (run : Run cmp depth p low high q) : Rearranged low high p.map q.map := by
  induction run with
  | done => exact .refl ..
  | round r made _ _ split _ _ nested rest =>
    have sides := split.sides made
    refine split.rearranged.trans ?_
    exact (nested.widen sides.1.lower sides.1.upper).trans (rest.widen sides.2.lower sides.2.upper)

/-- Every zone of an arrangement has a run. -/
theorem exists_run (reflexive : ∀ a, cmp a a = .eq) (depth : Nat) (p : Progress) (low high : Nat)
    (bound : high ≤ p.map.size) : ∃ q, Run cmp depth p low high q := by
  -- on the size of the zone, for each side of a round is shorter
  induction size : high - low using Nat.strongRecOn generalizing depth p low high with
  | ind size ih =>
    by_cases proper : low + 1 < high
    · obtain ⟨pivot, found, split⟩ := partition_split reflexive (show low < high by omega) bound
      obtain ⟨r, made⟩ : ∃ r, r = roundAt cmp depth p.map low high := ⟨_, rfl⟩
      have split : Split cmp pivot p.map low high r.cut := by rw [made]; exact split
      have sides := split.sides made
      have nestedUpper := sides.1.upper
      have nestedShorter := sides.1.shorter
      have restUpper := sides.2.upper
      have restShorter := sides.2.shorter
      have cutSize : (p.record r).map.size = p.map.size := split.rearranged.size_eq
      obtain ⟨mid, nested⟩ :=
        ih _ (by omega) (depth + 1) (p.record r) r.nested.1 r.nested.2 (by omega) rfl
      have midSize : mid.map.size = p.map.size := nested.rearranged.size_eq.trans cutSize
      obtain ⟨q, rest⟩ := ih _ (by omega) depth mid r.rest.1 r.rest.2 (by omega) rfl
      exact ⟨q, .round r made proper found split nested rest⟩
    · exact ⟨p, .done (by omega)⟩

/-- The positions of a side are fuel enough to follow its run. -/
theorem Run.sortSide_eq (run : Run cmp depth p low high q) {fuel : Nat} (enough : high - low ≤ fuel) :
    sortSide cmp fuel depth p (low, high) = some q := by
  induction run generalizing fuel with
  | done short => exact if_neg (show ¬_ + 1 < _ by omega)
  | @round depth p mid q low high _ r made proper _ split _ _ nested rest =>
    have sides := split.sides made
    have nestedShorter := sides.1.shorter
    have restShorter := sides.2.shorter
    obtain ⟨fuel, rfl⟩ : ∃ less, fuel = less + 1 := ⟨fuel - 1, by omega⟩
    rw [sortSide, if_pos proper, sortZone_succ, ← made]
    dsimp only
    rw [nested (by omega), Option.bind_some, rest (by omega)]

/-- **The sort of a zone** follows its run whatever fuel it has beyond the positions of the zone. -/
theorem Run.sortZone_eq (run : Run cmp depth p low high q) (proper : low + 1 < high) {fuel : Nat}
    (enough : high - low ≤ fuel) : sortZone cmp fuel depth p low high = some q := by
  rw [← run.sortSide_eq enough, sortSide, if_pos proper]

/-- A round that keeps to a zone: it partitions at least two positions of it, takes its pivot, looks,
trades and stops at them only, and ends with its scans met. -/
structure Round.Keeps (r : Round) (low high : Nat) : Prop where
  lower : low ≤ r.low
  proper : r.low + 1 < r.high
  upper : r.high ≤ high
  pivot : r.low ≤ middle r.low r.high ∧ middle r.low r.high < r.high
  within : r.cut.Within r.low r.high
  ended : r.cut.high ≤ r.cut.low

theorem Round.Keeps.widen {r : Round} {inner outer : Nat} (h : r.Keeps inner outer)
    (lower : low ≤ inner) (upper : outer ≤ high) : r.Keeps low high :=
  { h with
    lower := Nat.le_trans lower h.lower
    upper := Nat.le_trans h.upper upper }

/-- **The rounds of a run** keep to its zone. -/
theorem Run.keeps (run : Run cmp depth p low high q) :
    ∃ made, q.rounds = p.rounds ++ made ∧ ∀ r ∈ made, Round.Keeps r low high := by
  induction run with
  | done => exact ⟨#[], by simp, by simp⟩
  | @round depth p mid q low high _ r made proper _ split _ _ nested rest =>
    obtain ⟨first, firstRounds, firstKeep⟩ := nested
    obtain ⟨second, secondRounds, secondKeep⟩ := rest
    have sides := split.sides made
    subst made
    have meet := split.meet
    refine ⟨#[roundAt cmp depth p.map low high] ++ first ++ second, ?_, ?_⟩
    · rw [secondRounds, firstRounds, Progress.record, Array.push_eq_append]
      simp only [Array.append_assoc]
    · intro r member
      simp only [Array.mem_append, Array.mem_singleton] at member
      rcases member with (rfl | member) | member
      · exact ⟨Nat.le_refl low, proper, Nat.le_refl high, middle_inside (show low < high by omega),
          split.within, by omega⟩
      · exact (firstKeep r member).widen sides.1.lower sides.1.upper
      · exact (secondKeep r member).widen sides.2.lower sides.2.upper

theorem exists_arrange? (reflexive : ∀ a, cmp a a = .eq) (map : Array Nat) :
    ∃ q, Run cmp 0 ⟨map, #[]⟩ 0 map.size q ∧ arrange? cmp map = some q := by
  unfold arrange?
  split
  · next proper =>
    obtain ⟨q, run⟩ := exists_run reflexive 0 ⟨map, #[]⟩ 0 map.size (Nat.le_refl _)
    exact ⟨q, run, run.sortZone_eq proper (Nat.sub_le ..)⟩
  · next short => exact ⟨_, .done (by omega), rfl⟩

/-- The sort of a whole arrangement does not run out of fuel. -/
theorem arrange?_eq (reflexive : ∀ a, cmp a a = .eq) (map : Array Nat) :
    arrange? cmp map = some (arrange cmp map) := by
  obtain ⟨q, -, sorted⟩ := exists_arrange? reflexive map
  rw [arrange, sorted, Option.getD_some]

theorem run_arrange (reflexive : ∀ a, cmp a a = .eq) (map : Array Nat) :
    Run cmp 0 ⟨map, #[]⟩ 0 map.size (arrange cmp map) := by
  obtain ⟨q, run, sorted⟩ := exists_arrange? reflexive map
  rwa [arrange, sorted, Option.getD_some]

theorem arrange_perm (reflexive : ∀ a, cmp a a = .eq) (map : Array Nat) :
    (arrange cmp map).map.Perm map :=
  (run_arrange reflexive map).rearranged.perm

end Runs

end Collate.Sort
