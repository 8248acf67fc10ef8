import Collate.Proofs.Sort.Rearrangement

/-!
# Partitioning under any comparison

All that is asked of the comparison is that an entry is equal to itself. Then a scan never runs
to an end of the arrangement: on the first pass the pivot stops both scans, on a later pass the
entries that traded places before it do. The sweep ends with its two sides disjoint or with
one entry between them, and each side is shorter than the zone.
-/

set_option autoImplicit false

namespace Collate.Sort

section Scans

variable {cmp : Ranking} {map : Array Nat} {pivot : Nat}

variable (cmp map pivot) in
theorem le_scanUp (room i : Nat) : i ≤ scanUp cmp map pivot room i := by
  induction room generalizing i with
  | zero => exact Nat.le_refl i
  | succ room ih =>
    rw [scanUp]
    split
    · split
      · exact Nat.le_of_succ_le (ih (i + 1))
      · exact Nat.le_refl i
    · exact Nat.le_refl i

variable (cmp map pivot) in
theorem scanDown_le (j : Nat) : scanDown cmp map pivot j ≤ j := by
  induction j with
  | zero => exact Nat.le_refl 0
  | succ j ih =>
    rw [scanDown]
    split
    · split
      · exact Nat.le_succ_of_le ih
      · exact Nat.le_refl (j + 1)
    · exact Nat.le_refl (j + 1)

/-- The left scan stops at an entry, no later than at one that is known to stop it. -/
theorem scanUp_spec {room i k sentinel : Nat} (found : map[k]? = some sentinel)
    (stops : cmp pivot sentinel ≠ .gt) (lower : i ≤ k) (upper : k < i + room) :
    scanUp cmp map pivot room i ≤ k ∧
      (∃ entry, map[scanUp cmp map pivot room i]? = some entry ∧ cmp pivot entry ≠ .gt) ∧
      Throughout map i (scanUp cmp map pivot room i) fun entry => cmp pivot entry = .gt := by
  induction room generalizing i with
  | zero => omega
  | succ room ih =>
    have bound : k < map.size := (Array.getElem?_eq_some_iff.1 found).1
    have here : map[i]? = some map[i] := Array.getElem?_eq_getElem (by omega)
    rw [scanUp, here]
    by_cases passes : cmp pivot map[i] = .gt
    · have further : i ≠ k := by
        rintro rfl
        rw [found] at here
        cases here
        exact stops passes
      obtain ⟨until', stop, passed⟩ := ih (i := i + 1) (by omega) (by omega)
      simp only [passes, if_true]
      refine ⟨until', stop, ?_⟩
      intro p entry after before read
      by_cases first : p = i
      · subst first
        rw [here] at read
        cases read
        exact passes
      · exact passed p entry (by omega) before read
    · simp only [passes, if_false]
      exact ⟨lower, ⟨_, here, passes⟩, fun p entry after before => by omega⟩

/-- The right scan stops behind an entry, no further down than behind one that is known to
stop it. -/
theorem scanDown_spec {j k sentinel : Nat} (found : map[k]? = some sentinel)
    (stops : cmp pivot sentinel ≠ .lt) (below : k < j) (inside : j ≤ map.size) :
    k < scanDown cmp map pivot j ∧
      (∃ entry, map[scanDown cmp map pivot j - 1]? = some entry ∧ cmp pivot entry ≠ .lt) ∧
      Throughout map (scanDown cmp map pivot j) j fun entry => cmp pivot entry = .lt := by
  induction j with
  | zero => omega
  | succ j ih =>
    have here : map[j]? = some map[j] := Array.getElem?_eq_getElem (by omega)
    rw [scanDown, here]
    by_cases passes : cmp pivot map[j] = .lt
    · have further : k ≠ j := by
        rintro rfl
        rw [found] at here
        cases here
        exact stops passes
      obtain ⟨from', stop, passed⟩ := ih (by omega) (by omega)
      simp only [passes, if_true]
      refine ⟨from', stop, ?_⟩
      intro p entry after before read
      by_cases last : p = j
      · subst last
        rw [here] at read
        cases read
        exact passes
      · exact passed p entry after (by omega) read
    · simp only [passes, if_false]
      exact ⟨below, ⟨_, here, passes⟩, fun p entry after before => by omega⟩

theorem mem_probesUp {i stop : Nat} {p : Probe} (member : p ∈ probesUp map pivot i stop) :
    i ≤ p.position ∧ p.position ≤ stop := by
  obtain ⟨k, inside, made⟩ := List.mem_filterMap.1 member
  obtain ⟨entry, -, rfl⟩ := Option.map_eq_some_iff.1 made
  rw [List.mem_range'_1] at inside
  dsimp only
  omega

theorem mem_probesDown {j stop : Nat} {p : Probe} (member : p ∈ probesDown map pivot j stop) :
    stop ≤ p.position + 1 ∧ p.position < j := by
  obtain ⟨k, inside, made⟩ := List.mem_filterMap.1 member
  obtain ⟨entry, -, rfl⟩ := Option.map_eq_some_iff.1 made
  rw [List.mem_reverse, List.mem_range'_1] at inside
  dsimp only
  omega

end Scans

/-- What a sweep has looked at, traded and stopped at lies in a zone. -/
structure Cut.Within (c : Cut) (low high : Nat) : Prop where
  probes : ∀ p ∈ c.probes, low ≤ p.position ∧ p.position < high
  swaps : ∀ s ∈ c.swaps, low ≤ s.1 ∧ s.1 < s.2 ∧ s.2 < high
  stops : ∀ s ∈ c.stops, low ≤ s.1 ∧ s.1 < high ∧ low < s.2 ∧ s.2 ≤ high

/-- Scans that begin and stop in a zone look at it only. -/
theorem Cut.Within.scanned {cmp : Ranking} {pivot low high : Nat} {c : Cut} (w : c.Within low high)
    (lower : low ≤ c.low) (upper : c.high ≤ high) (lowInside : (c.scanned cmp pivot).low < high)
    (highInside : low < (c.scanned cmp pivot).high) : (c.scanned cmp pivot).Within low high := by
  have lowFrom : c.low ≤ (c.scanned cmp pivot).low := le_scanUp ..
  have highFrom : (c.scanned cmp pivot).high ≤ c.high := scanDown_le ..
  unfold Cut.scanned at *
  dsimp only at *
  refine ⟨?_, w.swaps, ?_⟩
  · intro p member
    rw [← Array.mem_toList_iff, Array.toList_appendList, Array.toList_appendList, List.mem_append,
      List.mem_append] at member
    rcases member with (old | up) | down
    · exact w.probes p (Array.mem_toList_iff.1 old)
    · have := mem_probesUp up
      omega
    · have := mem_probesDown down
      omega
  · intro s member
    rcases Array.mem_push.1 member with old | rfl
    · exact w.stops s old
    · dsimp only
      omega

/-- Two entries of a zone that trade places are recorded as such. -/
theorem Cut.Within.traded {low high : Nat} {c : Cut} (w : c.Within low high) (lower : low ≤ c.low)
    (upper : c.high ≤ high) : c.traded.Within low high := by
  refine ⟨w.probes, ?_, w.stops⟩
  intro pair member
  unfold Cut.traded at member
  dsimp only at member
  split at member
  · next two =>
    rcases Array.mem_push.1 member with old | rfl
    · exact w.swaps pair old
    · dsimp only
      omega
  · exact w.swaps pair member

section Passes

variable (cmp : Ranking) (pivot : Nat) (map : Array Nat) (low high : Nat)

/-- The zone is rearranged, with nothing before the pivot behind and nothing after it in front. -/
structure Sides (c : Cut) : Prop where
  rearranged : Rearranged low high map c.map
  lower : low ≤ c.low
  upper : c.high ≤ high
  before : Throughout c.map low c.low fun entry => cmp pivot entry ≠ .lt
  behind : Throughout c.map c.high high fun entry => cmp pivot entry ≠ .gt
  within : c.Within low high

/-- A pass begins: entries are left to be looked at, and either the pivot is among them or a trade
has left an entry on each side of them. -/
structure Open (c : Cut) : Prop extends Sides cmp pivot map low high c where
  apart : c.low < c.high
  guard : (low < c.low ∧ c.high < high) ∨
    ∃ k entry, c.low ≤ k ∧ k < c.high ∧ c.map[k]? = some entry ∧ cmp pivot entry = .eq

/-- Both scans have stopped at entries of the zone, at the latest where they meet. -/
structure Stopped (c : Cut) : Prop extends Sides cmp pivot map low high c where
  stopUp : ∃ entry, c.map[c.low]? = some entry ∧ cmp pivot entry ≠ .gt
  stopDown : ∃ entry, c.map[c.high - 1]? = some entry ∧ cmp pivot entry ≠ .lt
  lowInside : c.low < high
  highInside : low < c.high
  apart : c.low ≤ c.high
  met : c.low = c.high → low < c.low ∧ c.high < high

/-- The sweep is over: the sides meet, or leave one entry between them that belongs to both. -/
structure Split (c : Cut) : Prop extends Sides cmp pivot map low high c where
  meet : c.low = c.high ∨ c.low = c.high + 1
  lowMoved : low < c.low
  lowInside : c.low ≤ high
  highMoved : c.high < high
  highInside : low ≤ c.high

variable {cmp pivot map low high} {c : Cut}

/-- An entry at or behind the left scan that stops it. -/
theorem Open.sentinelUp (o : Open cmp pivot map low high c) (bound : high ≤ map.size) :
    ∃ k entry, c.map[k]? = some entry ∧ cmp pivot entry ≠ .gt ∧ c.low ≤ k ∧ k ≤ c.high ∧ k < high := by
  have size := o.rearranged.size_eq
  have apart := o.apart
  rcases o.guard with ⟨-, moved⟩ | ⟨k, entry, lower, upper, found, equal⟩
  · have found : c.map[c.high]? = some c.map[c.high] := Array.getElem?_eq_getElem (by omega)
    exact ⟨c.high, _, found, o.behind _ _ (Nat.le_refl _) moved found, by omega, Nat.le_refl _, moved⟩
  · have top := o.upper
    exact ⟨k, entry, found, by simp [equal], lower, by omega, by omega⟩

/-- An entry at or before the right scan that stops it. -/
theorem Open.sentinelDown (o : Open cmp pivot map low high c) (bound : high ≤ map.size) :
    ∃ k entry, c.map[k]? = some entry ∧ cmp pivot entry ≠ .lt ∧ low ≤ k ∧ c.low ≤ k + 1 ∧ k < c.high := by
  have size := o.rearranged.size_eq
  have apart := o.apart
  have top := o.upper
  rcases o.guard with ⟨moved, -⟩ | ⟨k, entry, lower, upper, found, equal⟩
  · have found : c.map[c.low - 1]? = some c.map[c.low - 1] := Array.getElem?_eq_getElem (by omega)
    exact ⟨c.low - 1, _, found, o.before _ _ (by omega) (by omega) found, by omega, by omega, by omega⟩
  · have bottom := o.lower
    exact ⟨k, entry, found, by simp [equal], by omega, by omega, upper⟩

/-- Scans that cross pass no entry between them, for it would come after and before the pivot. -/
theorem not_crossed {map : Array Nat} {from' i j until' : Nat} (size : until' ≤ map.size)
    (lower : from' ≤ j) (upper : i ≤ until')
    (passedUp : Throughout map from' i fun entry => cmp pivot entry = .gt)
    (passedDown : Throughout map j until' fun entry => cmp pivot entry = .lt) : i ≤ j := by
  rcases Nat.lt_or_ge j i with crossed | apart
  · have found : map[j]? = some map[j] := Array.getElem?_eq_getElem (by omega)
    have after : cmp pivot map[j] = .gt := passedUp j _ lower crossed found
    rw [passedDown j _ (Nat.le_refl j) (by omega) found] at after
    cases after
  · exact apart

/-- **The scans of a pass** stop inside of the zone. -/
theorem Open.scanned (o : Open cmp pivot map low high c) (bound : high ≤ map.size) :
    Stopped cmp pivot map low high (c.scanned cmp pivot) := by
  have size := o.rearranged.size_eq
  have apart := o.apart
  have bottom := o.lower
  have top := o.upper
  obtain ⟨u, _, uFound, uStops, uLower, uUpper, uInside⟩ := o.sentinelUp bound
  obtain ⟨d, _, dFound, dStops, dInside, dLower, dUpper⟩ := o.sentinelDown bound
  have uRoom : u < c.low + (c.map.size - c.low) := by omega
  have iFrom : c.low ≤ (c.scanned cmp pivot).low := le_scanUp ..
  have jFrom : (c.scanned cmp pivot).high ≤ c.high := scanDown_le ..
  obtain ⟨iTo, iStop, passedUp⟩ := scanUp_spec uFound uStops uLower uRoom
  obtain ⟨jTo, jStop, passedDown⟩ := scanDown_spec dFound dStops dUpper (by omega)
  change (c.scanned cmp pivot).low ≤ u at iTo
  change d < (c.scanned cmp pivot).high at jTo
  have crossing : (c.scanned cmp pivot).low ≤ (c.scanned cmp pivot).high :=
    not_crossed (by omega) (by omega) (by omega) passedUp passedDown
  have lowInside : (c.scanned cmp pivot).low < high := by omega
  have highInside : low < (c.scanned cmp pivot).high := by omega
  have within := o.within.scanned bottom top lowInside highInside
  refine ⟨⟨o.rearranged, by omega, by omega, ?_, ?_, within⟩, iStop, jStop, lowInside, highInside,
    crossing, ?_⟩
  · intro k entry lower upper found
    rcases Nat.lt_or_ge k c.low with old | new
    · exact o.before k entry lower old found
    · simp [passedUp k entry new upper found]
  · intro k entry lower upper found
    rcases Nat.lt_or_ge k c.high with new | old
    · simp [passedDown k entry lower new found]
    · exact o.behind k entry old upper found
  · intro met
    -- on the first pass the pivot stands between the scans, so they cannot meet
    rcases o.guard with ⟨lowMoved, highMoved⟩ | ⟨k, entry, kLower, kUpper, found, equal⟩
    · omega
    · rcases Nat.lt_or_ge k (c.scanned cmp pivot).low with before | behind
      · have after : cmp pivot entry = .gt := passedUp k entry kLower before found
        simp [after] at equal
      · have behind : (c.scanned cmp pivot).high ≤ k := by omega
        have before : cmp pivot entry = .lt := passedDown k entry behind kUpper found
        simp [before] at equal

/-- After a trade each of the two positions holds the other's entry. -/
theorem getElem?_traded (lowBound : c.low < c.map.size) (highBound : c.high - 1 < c.map.size)
    (apart : c.low < c.high) (k : Nat) :
    c.traded.map[k]? =
      if k = c.low then c.map[c.high - 1]? else if k = c.high - 1 then c.map[c.low]? else c.map[k]? := by
  unfold Cut.traded
  dsimp only
  split
  · next two => grind
  · next one =>
    have same : c.high - 1 = c.low := by omega
    split <;> simp_all

/-- A trade leaves one more position on each side. -/
theorem Stopped.traded (s : Stopped cmp pivot map low high c) (bound : high ≤ map.size)
    (apart : c.low < c.high) :
    Sides cmp pivot map low high c.traded ∧ low < c.traded.low ∧ c.traded.high < high := by
  have size := s.rearranged.size_eq
  have bottom := s.lower
  have top := s.upper
  have lowInside := s.lowInside
  have highInside := s.highInside
  have read := getElem?_traded (by omega) (by omega) apart
  obtain ⟨_, upFound, upStops⟩ := s.stopUp
  obtain ⟨_, downFound, downStops⟩ := s.stopDown
  have nextLow : c.traded.low = c.low + 1 := rfl
  have nextHigh : c.traded.high = c.high - 1 := rfl
  refine ⟨⟨?_, by omega, by omega, ?_, ?_, s.within.traded bottom top⟩, by omega, by omega⟩
  · unfold Cut.traded
    dsimp only
    split
    · exact s.rearranged.trans (.swap c.map (by omega) (by omega) (by omega) (by omega))
    · exact s.rearranged
  · intro k entry lower upper found
    rw [read] at found
    split at found
    · rw [downFound] at found
      cases found
      exact downStops
    · rw [if_neg (by omega)] at found
      exact s.before k entry lower (by omega) found
  · intro k entry lower upper found
    rw [read] at found
    split at found
    · have same : c.high - 1 = c.low := by omega
      rw [same, upFound] at found
      cases found
      exact upStops
    · split at found
      · rw [upFound] at found
        cases found
        exact upStops
      · exact s.behind k entry (by omega) upper found

/-- **The sweep** splits the zone before it runs out of passes. -/
theorem Open.sweep {room : Nat} (o : Open cmp pivot map low high c) (bound : high ≤ map.size)
    (enough : c.high ≤ c.low + room) : Split cmp pivot map low high (sweep cmp pivot room c) := by
  induction room generalizing c with
  | zero =>
    have apart := o.apart
    omega
  | succ room ih =>
    have s := o.scanned bound
    have narrowed : c.low ≤ (c.scanned cmp pivot).low ∧ (c.scanned cmp pivot).high ≤ c.high :=
      ⟨le_scanUp .., scanDown_le ..⟩
    unfold Sort.sweep
    dsimp only
    split
    · next crossed =>
      have apart := s.apart
      have met := s.met (by omega)
      exact { s.toSides with
        meet := by omega
        lowMoved := met.1
        lowInside := by omega
        highMoved := met.2
        highInside := by omega }
    · next apart =>
      obtain ⟨sides, lowMoved, highMoved⟩ := s.traded bound (by omega)
      have nextLow : (c.scanned cmp pivot).traded.low = (c.scanned cmp pivot).low + 1 := rfl
      have nextHigh : (c.scanned cmp pivot).traded.high = (c.scanned cmp pivot).high - 1 := rfl
      split
      · next crossed =>
        have lowInside := s.lowInside
        have highInside := s.highInside
        exact { sides with
          meet := by omega
          lowMoved := lowMoved
          lowInside := by omega
          highMoved := highMoved
          highInside := by omega }
      · next further =>
        refine ih ⟨sides, by omega, Or.inl ⟨lowMoved, highMoved⟩⟩ (by omega)

theorem middle_inside (proper : low < high) : low ≤ middle low high ∧ middle low high < high := by
  unfold middle
  omega

theorem exists_middle (proper : low < high) (bound : high ≤ map.size) :
    ∃ pivot, map[middle low high]? = some pivot := by
  have inside := middle_inside proper
  exact ⟨_, Array.getElem?_eq_getElem (by omega)⟩

/-- Before the first pass nothing has been moved, and the pivot is among the entries to be looked at. -/
theorem Open.start (reflexive : ∀ a, cmp a a = .eq) (proper : low < high)
    (found : map[middle low high]? = some pivot) :
    Open cmp pivot map low high (.start map low high) where
  rearranged := .refl low high map
  lower := Nat.le_refl low
  upper := Nat.le_refl high
  before k entry lower upper := by
    have upper : k < low := upper
    omega
  behind k entry lower upper := by
    have lower : high ≤ k := lower
    omega
  within := ⟨by simp [Cut.start], by simp [Cut.start], by simp [Cut.start]⟩
  apart := proper
  guard := Or.inr ⟨_, pivot, (middle_inside proper).1, (middle_inside proper).2, found, reflexive pivot⟩

/-- **A partition** of a zone that has entries splits it around its middle entry. -/
theorem partition_split (reflexive : ∀ a, cmp a a = .eq) (proper : low < high)
    (bound : high ≤ map.size) :
    ∃ pivot, map[middle low high]? = some pivot ∧
      Split cmp pivot map low high (partition cmp map low high) := by
  obtain ⟨pivot, found⟩ := exists_middle proper bound
  refine ⟨pivot, found, ?_⟩
  rw [partition, found]
  exact (Open.start reflexive proper found).sweep bound (by dsimp only [Cut.start]; omega)

end Passes

end Collate.Sort
