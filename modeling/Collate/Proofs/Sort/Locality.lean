import Collate.Proofs.Sort.Quick
import Mathlib.Data.List.Basic

/-!
# The sort of a zone reads the zone only

Two arrangements of one size that are alike in a zone are treated alike there: the scans read no
further than their stops, so every pass looks, trades and stops at the same positions, and the
zones end alike. What stands outside of the zone cannot show in the outcome.
-/

set_option autoImplicit false

namespace Collate.Sort

/-- Two arrangements of one size have the same entries in a zone. -/
structure Alike (low high : Nat) (map other : Array Nat) : Prop where
  size : other.size = map.size
  zone : ∀ k, low ≤ k → k < high → other[k]? = map[k]?

/-- A zone in the course of being split, on another arrangement. -/
def Cut.on (c : Cut) (other : Array Nat) : Cut := { c with map := other }

section Scans

variable {cmp : Ranking} {map other : Array Nat} {pivot : Nat}

/-- The left scan reads no further than its stop. -/
theorem scanUp_congr {room i : Nat}
    (same : ∀ k, i ≤ k → k ≤ scanUp cmp map pivot room i → other[k]? = map[k]?) :
    scanUp cmp other pivot room i = scanUp cmp map pivot room i := by
  induction room generalizing i with
  | zero => rfl
  | succ room ih =>
    have here := same i (Nat.le_refl i) (le_scanUp ..)
    unfold scanUp at same ⊢
    rw [here]
    cases found : map[i]? with
    | none => rfl
    | some entry =>
      rw [found] at same
      dsimp only at same ⊢
      by_cases passes : cmp pivot entry = .gt
      · simp only [passes, if_true] at same ⊢
        exact ih fun k after before => same k (Nat.le_of_succ_le after) before
      · simp only [passes, if_false]

/-- The right scan reads no further down than its stop. -/
theorem scanDown_congr {j : Nat}
    (same : ∀ k, scanDown cmp map pivot j ≤ k + 1 → k < j → other[k]? = map[k]?) :
    scanDown cmp other pivot j = scanDown cmp map pivot j := by
  induction j with
  | zero => rfl
  | succ j ih =>
    have here := same j (scanDown_le ..) (Nat.lt_succ_self j)
    unfold scanDown at same ⊢
    rw [here]
    cases found : map[j]? with
    | none => rfl
    | some entry =>
      rw [found] at same
      dsimp only at same ⊢
      by_cases passes : cmp pivot entry = .lt
      · simp only [passes, if_true] at same ⊢
        exact ih fun k after before => same k after (Nat.lt_succ_of_lt before)
      · simp only [passes, if_false]

theorem probesUp_congr {i stop : Nat} (same : ∀ k, i ≤ k → k ≤ stop → other[k]? = map[k]?) :
    probesUp other pivot i stop = probesUp map pivot i stop := by
  refine List.filterMap_congr fun k member => ?_
  rw [List.mem_range'_1] at member
  rw [probe?, probe?, same k member.1 (by omega)]

theorem probesDown_congr {j stop : Nat} (same : ∀ k, stop ≤ k + 1 → k < j → other[k]? = map[k]?) :
    probesDown other pivot j stop = probesDown map pivot j stop := by
  refine List.filterMap_congr fun k member => ?_
  rw [List.mem_reverse, List.mem_range'_1] at member
  rw [probe?, probe?, same k (by omega) (by omega)]

end Scans

section Passes

variable {cmp : Ranking} {pivot low high : Nat} {map other : Array Nat} {c : Cut}

/-- A pass scans alike arrangements alike. -/
theorem Open.scanned_on (o : Open cmp pivot map low high c) (bound : high ≤ map.size)
    (alike : Alike low high c.map other) :
    (c.on other).scanned cmp pivot = (c.scanned cmp pivot).on other := by
  have s := o.scanned bound
  have lower := o.lower
  have upper := o.upper
  have lowInside := s.lowInside
  have highInside := s.highInside
  have up : ∀ k, c.low ≤ k → k ≤ (c.scanned cmp pivot).low → other[k]? = c.map[k]? :=
    fun k after before => alike.zone k (by omega) (by omega)
  have down : ∀ k, (c.scanned cmp pivot).high ≤ k + 1 → k < c.high → other[k]? = c.map[k]? :=
    fun k after before => alike.zone k (by omega) (by omega)
  have sameUp : scanUp cmp other pivot (other.size - c.low) c.low = (c.scanned cmp pivot).low := by
    rw [alike.size]
    exact scanUp_congr up
  have sameDown : scanDown cmp other pivot c.high = (c.scanned cmp pivot).high := scanDown_congr down
  unfold Cut.on
  rw [Cut.scanned]
  dsimp only
  rw [sameUp, sameDown, probesUp_congr up, probesDown_congr down]
  rfl

/-- A trade on alike arrangements leaves them alike. -/
theorem Stopped.traded_on (s : Stopped cmp pivot map low high c) (bound : high ≤ map.size)
    (apart : c.low < c.high) (alike : Alike low high c.map other) :
    ∃ next, (c.on other).traded = c.traded.on next ∧ Alike low high c.traded.map next := by
  have size := s.rearranged.size_eq
  have lower := s.lower
  have upper := s.upper
  have otherSize := alike.size
  have read := getElem?_traded (c := c) (by omega) (by omega) apart
  have readOther := getElem?_traded (c := c.on other) (by dsimp only [Cut.on]; omega)
    (by dsimp only [Cut.on]; omega) apart
  refine ⟨(c.on other).traded.map, rfl, ?_, ?_⟩
  · unfold Cut.traded Cut.on
    dsimp only
    split <;> simp [otherSize]
  · intro k after before
    rw [read, readOther]
    dsimp only [Cut.on]
    rw [alike.zone k after before, alike.zone c.low (by omega) (by omega),
      alike.zone (c.high - 1) (by omega) (by omega)]
    rfl

/-- A sweep splits alike arrangements alike. -/
theorem Open.sweep_on {room : Nat} (o : Open cmp pivot map low high c) (bound : high ≤ map.size)
    (alike : Alike low high c.map other) :
    ∃ last, Sort.sweep cmp pivot room (c.on other) = (Sort.sweep cmp pivot room c).on last ∧
      Alike low high (Sort.sweep cmp pivot room c).map last := by
  induction room generalizing c other with
  | zero => exact ⟨other, rfl, alike⟩
  | succ room ih =>
    have s := o.scanned bound
    have stoppedAlike : Alike low high (c.scanned cmp pivot).map other := alike
    unfold Sort.sweep
    dsimp only
    rw [o.scanned_on bound alike]
    by_cases crossed : (c.scanned cmp pivot).high ≤ (c.scanned cmp pivot).low
    · rw [if_pos crossed, if_pos (by exact crossed)]
      exact ⟨other, rfl, stoppedAlike⟩
    · obtain ⟨next, sameNext, nextAlike⟩ := s.traded_on bound (by omega) stoppedAlike
      obtain ⟨sides, moved⟩ := s.traded bound (by omega)
      rw [if_neg crossed, if_neg (by exact crossed), sameNext]
      by_cases ended : (c.scanned cmp pivot).traded.high ≤ (c.scanned cmp pivot).traded.low
      · rw [if_pos ended, if_pos (by exact ended)]
        exact ⟨next, rfl, nextAlike⟩
      · rw [if_neg ended, if_neg (by exact ended)]
        exact ih ⟨sides, by omega, Or.inl moved⟩ nextAlike

theorem partition_on (reflexive : ∀ a, cmp a a = .eq) (proper : low < high) (bound : high ≤ map.size)
    (alike : Alike low high map other) :
    ∃ last, partition cmp other low high = (partition cmp map low high).on last ∧
      Alike low high (partition cmp map low high).map last := by
  have inside := middle_inside proper
  obtain ⟨pivot, found⟩ := exists_middle proper bound
  rw [partition, partition, alike.zone _ inside.1 inside.2, found]
  exact (Open.start reflexive proper found).sweep_on bound alike

end Passes

section Runs

variable {cmp : Ranking} {depth low high : Nat} {p q p' : Progress} {map other after after' : Array Nat}

theorem Alike.narrow {inner outer : Nat} (alike : Alike low high map other) (lower : low ≤ inner)
    (upper : outer ≤ high) : Alike inner outer map other :=
  ⟨alike.size, fun k lower' upper' => alike.zone k (by omega) (by omega)⟩

/-- Alike arrangements stay alike when a part of the zone is rearranged alike. -/
theorem Alike.rearranged {inner outer : Nat} (alike : Alike low high map other)
    (moved : Rearranged inner outer map after) (otherMoved : Rearranged inner outer other after')
    (part : Alike inner outer after after') : Alike low high after after' := by
  refine ⟨part.size, fun k lower upper => ?_⟩
  by_cases inside : inner ≤ k ∧ k < outer
  · exact part.zone k inside.1 inside.2
  · rw [otherMoved.outside k (by omega), moved.outside k (by omega)]
    exact alike.zone k lower upper

/-- **Runs on arrangements that are alike in the zone** end with the zone alike. -/
theorem Run.alike (reflexive : ∀ a, cmp a a = .eq) (run : Run cmp depth p low high q)
    (bound : high ≤ p.map.size) (alike : Alike low high p.map p'.map) :
    ∃ q', Run cmp depth p' low high q' ∧ Alike low high q.map q'.map := by
  induction run generalizing p' with
  | done short => exact ⟨p', .done short, alike⟩
  | @round depth p mid q low high _ r made proper _ split nestedRun restRun nested rest =>
    have sides := split.sides made
    have nestedUpper := sides.1.upper
    have restUpper := sides.2.upper
    have otherSize := alike.size
    have cutSize := split.rearranged.size_eq
    have midSize := nestedRun.rearranged.size_eq
    obtain ⟨last, same, lastAlike⟩ := partition_on reflexive (show low < high by omega) bound alike
    obtain ⟨pivot', found', split'⟩ := partition_split reflexive (show low < high by omega)
      (show high ≤ p'.map.size by omega)
    obtain ⟨r', made'⟩ : ∃ r', r' = roundAt cmp depth p'.map low high := ⟨_, rfl⟩
    have split' : Split cmp pivot' p'.map low high r'.cut := by rw [made']; exact split'
    -- the rounds differ in the arrangement only, so their sides are the same
    have onLast : r' = { r with cut := r.cut.on last } := by
      rw [made', made, roundAt, roundAt, same]
    have cutAlike : Alike low high (p.record r).map (p'.record r').map := by
      rw [onLast, made]
      exact lastAlike
    have nestedEq : r'.nested = r.nested := by rw [onLast]; rfl
    have restEq : r'.rest = r.rest := by rw [onLast]; rfl
    obtain ⟨mid', nestedRun', nestedAlike⟩ :=
      nested (Nat.le_trans nestedUpper (by rw [Progress.record, cutSize]; exact bound))
        (cutAlike.narrow sides.1.lower sides.1.upper)
    have midAlike := cutAlike.rearranged nestedRun.rearranged nestedRun'.rearranged nestedAlike
    obtain ⟨q', restRun', restAlike⟩ :=
      rest (Nat.le_trans restUpper (by rw [midSize, Progress.record, cutSize]; exact bound))
        (midAlike.narrow sides.2.lower sides.2.upper)
    have endAlike := midAlike.rearranged restRun.rearranged restRun'.rearranged restAlike
    rw [← nestedEq] at nestedRun'
    rw [← restEq] at restRun'
    exact ⟨q', .round r' made' proper found' split' nestedRun' restRun', endAlike⟩

end Runs

end Collate.Sort
