import Collate.Proofs.Sort.Locality
import Collate.Sort.Ordered

/-!
# Emission in the order of an arrangement

A sorted sequence empties one slot at each pull. As long as the places still ahead are distinct
and their slots full, a pull gives the element of the next place and leaves it so for the others.
The arrangement a sort starts from has every place once and a sort only rearranges, so no slot is
emptied twice and none is left over, whatever the levels answer on different keys.
-/

set_option autoImplicit false

namespace Collate.Sort

namespace Sorted

variable {α : Type} {items : Array α} {places : List Nat} {s : Sorted α}

/-- The places still ahead are distinct and their slots hold the elements. -/
structure Holds (items : Array α) (places : List Nat) (s : Sorted α) : Prop where
  ahead : s.map.toList.drop s.position = places
  distinct : places.Nodup
  filled : ∀ i ∈ places, ∃ x, items[i]? = some x ∧ s.slots[i]? = some (some x)

theorem Holds.remaining_eq (h : Holds items places s) : s.remaining = places.length := by
  rw [← h.ahead, List.length_drop, Array.length_toList, remaining]

/-- A pull gives the element of the next place. -/
theorem Holds.pull_cons {i : Nat} (h : Holds items (i :: places) s) :
    ∃ x, items[i]? = some x ∧ s.pull.1 = some x ∧ Holds items places s.pull.2 := by
  obtain ⟨x, item, slot⟩ := h.filled i List.mem_cons_self
  have next : s.map[s.position]? = some i := by
    rw [← Array.getElem?_toList, ← List.head?_drop, h.ahead, List.head?_cons]
  have fresh := (List.nodup_cons.1 h.distinct)
  refine ⟨x, item, by simp [pull, next, slot], ?_⟩
  simp only [pull, next]
  refine ⟨?_, fresh.2, ?_⟩
  · dsimp only
    rw [← List.tail_drop, h.ahead, List.tail_cons]
  · intro k member
    obtain ⟨y, item, slot⟩ := h.filled k (List.mem_cons_of_mem i member)
    have apart : i ≠ k := by
      rintro rfl
      exact fresh.1 member
    exact ⟨y, item, by rw [Array.getElem?_setIfInBounds_ne apart, slot]⟩

/-- A pull with nothing ahead gives nothing. -/
theorem Holds.pull_nil (h : Holds items [] s) : s.pull = (none, s) := by
  have last : s.map[s.position]? = none := by
    rw [← Array.getElem?_toList, ← List.head?_drop, h.ahead, List.head?_nil]
  simp [pull, last]

/-- Pulls pass as many places. -/
theorem Holds.after (h : Holds items places s) (k : Nat) :
    Holds items (places.drop k) (Pull.after pull k s) := by
  induction k generalizing places s with
  | zero => exact h
  | succ k ih =>
    cases places with
    | nil =>
      rw [Pull.after, h.pull_nil]
      simpa using ih h
    | cons i places =>
      obtain ⟨_, -, -, next⟩ := h.pull_cons
      exact ih next

/-- A pull after others gives the element of the place they have come to. -/
theorem Holds.pull_after (h : Holds items places s) (k : Nat) :
    (pull (Pull.after pull k s)).1 = places[k]?.bind (items[·]?) := by
  have there := h.after k
  rw [← List.head?_drop]
  cases ahead : places.drop k with
  | nil =>
    rw [ahead] at there
    rw [there.pull_nil, List.head?_nil, Option.bind_none]
  | cons i rest =>
    rw [ahead] at there
    obtain ⟨x, item, given, -⟩ := there.pull_cons
    rw [given, List.head?_cons, Option.bind_some, item]

theorem Holds.toList_eq (h : Holds items places s) : s.toList = places.filterMap (items[·]?) := by
  rw [toList, h.remaining_eq]
  induction places generalizing s with
  | nil => rfl
  | cons i places ih =>
    obtain ⟨x, item, given, next⟩ := h.pull_cons
    rw [List.length_cons, Pull.collect, List.filterMap_cons_some item, ← ih next]
    rcases pulled : s.pull with ⟨first, rest⟩
    rw [pulled] at given
    cases given
    rfl

end Sorted

/-- The elements at all places in their own order. -/
theorem filterMap_range_getElem? {α : Type} (items : List α) :
    (List.range items.length).filterMap (items[·]?) = items := by
  induction items with
  | nil => rfl
  | cons x items ih =>
    have first : (x :: items)[0]? = some x := rfl
    rw [List.length_cons, List.range_succ_eq_map, List.filterMap_cons_some first, List.filterMap_map]
    exact congrArg (x :: ·) ih

theorem rank_column_self (c : Column) (reflexive : ∀ k ∈ c.keys, c.compare k k = .eq) (a : Nat) :
    c.rank a a = .eq := by
  unfold Column.rank
  cases found : c.keys[a]? with
  | none => rfl
  | some k =>
    dsimp only
    rw [reflexive k (Array.mem_of_getElem? found), Direction.apply_eq]

/-- Columns that call every key equal to itself call every position equal to itself. -/
theorem rankColumns_self (columns : List Column)
    (reflexive : ∀ c ∈ columns, ∀ k ∈ c.keys, c.compare k k = .eq) (a : Nat) :
    rankColumns columns a a = .eq := by
  induction columns with
  | nil => exact Nat.compare_eq_eq.2 rfl
  | cons c rest ih =>
    rw [rankColumns, rank_column_self c (reflexive c List.mem_cons_self), Ordering.eq_then]
    exact ih fun c member => reflexive c (List.mem_cons_of_mem _ member)

namespace Ordered

variable {α : Type} {o : Ordered α}

theorem items_execution (o : Ordered α) : o.execution.items = o.source.rest.toArray :=
  Buffer.items_ofSource ..

theorem map_execution (o : Ordered α) : o.execution.map = Array.range o.source.rest.length := by
  unfold execution Execution.ofBuffer Buffer.size
  rw [Buffer.items_ofSource, List.size_toArray]

/-- Levels that call the key of every element equal to itself rank every position equal to itself. -/
theorem rank_self
    (reflexive : ∀ l ∈ o.levels, ∀ x ∈ o.source.rest, l.compare (l.key x) (l.key x) = .eq) (a : Nat) :
    o.execution.rank a a = .eq := by
  refine rankColumns_self _ ?_ a
  intro c member k key
  obtain ⟨l, level, rfl⟩ := List.mem_map.1 member
  obtain ⟨x, element, rfl⟩ := Array.mem_map.1 key
  rw [Buffer.items_ofSource, List.mem_toArray] at element
  exact reflexive l level x element

variable (reflexive : ∀ a, o.execution.rank a a = .eq)
include reflexive

theorem permutation_perm : o.permutation.Perm (Array.range o.source.rest.length) := by
  rw [← map_execution o]
  exact arrange_perm reflexive o.execution.map

theorem toList_permutation_perm : o.permutation.toList.Perm (List.range o.source.rest.length) := by
  simpa [Array.perm_iff_toList_perm] using permutation_perm reflexive

/-- An enumeration starts with every slot full and every place ahead once. -/
theorem holds_enumerate : o.enumerate.Holds o.source.rest.toArray o.permutation.toList := by
  have perm := toList_permutation_perm reflexive
  refine ⟨rfl, perm.nodup_iff.2 List.nodup_range, ?_⟩
  intro i member
  have bound : i < o.source.rest.length := List.mem_range.1 (perm.mem_iff.1 member)
  refine ⟨o.source.rest[i], by simp [bound], ?_⟩
  unfold enumerate Execution.sorted
  rw [items_execution]
  simp [bound]

theorem toList_eq : o.toList = o.permutation.toList.filterMap (o.source.rest[·]?) := by
  rw [toList, (holds_enumerate reflexive).toList_eq]
  simp only [List.getElem?_toArray]

theorem toList_perm : o.toList.Perm o.source.rest := by
  rw [toList_eq reflexive]
  exact ((toList_permutation_perm reflexive).filterMap _).trans (.of_eq (filterMap_range_getElem? _))

omit reflexive in
/-- An enumeration gives every element of the source once, in the order of the arrangement, and
knows at any time how many are to come. -/
structure EmitsOnce (o : Ordered α) : Prop where
  places : o.permutation.Perm (Array.range o.source.rest.length)
  elements : o.toList.Perm o.source.rest
  given : ∀ k, k < o.source.rest.length → ∃ place x,
    o.permutation[k]? = some place ∧ o.source.rest[place]? = some x ∧
      (Sorted.pull (Pull.after Sorted.pull k o.enumerate)).1 = some x ∧ o.toList[k]? = some x
  ended : (Sorted.pull (Pull.after Sorted.pull o.source.rest.length o.enumerate)).1 = none
  remaining : ∀ k, k ≤ o.source.rest.length →
    (Pull.after Sorted.pull k o.enumerate).hint = .exactly (o.source.rest.length - k)

/-- Pulls count down from the length of the source. -/
theorem emitsOnce : o.EmitsOnce := by
  have holds := holds_enumerate reflexive
  have elements := toList_perm reflexive
  have count : o.permutation.toList.length = o.source.rest.length := by
    simpa using (toList_permutation_perm reflexive).length_eq
  refine ⟨permutation_perm reflexive, elements, ?_, ?_, ?_⟩
  · intro k bound
    have inside : k < o.permutation.toList.length := by omega
    have place : o.permutation[k]? = some o.permutation.toList[k] := by simp
    obtain ⟨x, item, -⟩ := holds.filled _ (List.getElem_mem inside)
    rw [List.getElem?_toArray] at item
    have given := holds.pull_after k
    rw [Array.getElem?_toList, place, Option.bind_some, List.getElem?_toArray, item] at given
    refine ⟨_, x, place, item, given, ?_⟩
    have listed : k < o.toList.length := by rw [elements.length_eq]; exact bound
    rw [← given]
    exact Pull.getElem?_collect Sorted.pull _ k o.enumerate listed
  · rw [holds.pull_after, ← count, List.getElem?_eq_none (Nat.le_refl _), Option.bind_none]
  · intro k bound
    rw [Sorted.hint, (holds.after k).remaining_eq, List.length_drop, count]

end Ordered

/-- **The sort is safe under any comparison** that calls every entry equal to itself: a zone of
two entries or more is sorted without running out of fuel, every position read, traded or stopped
at lies in it, what stands outside of it neither moves nor shows in the outcome, and the entries are
only rearranged. So an enumeration gives every element once if the levels call the key of every
element equal to itself, whatever else they answer. -/
theorem reflexive_sort_safe :
    (∀ cmp : Ranking, (∀ a, cmp a a = .eq) →
      ∀ (map : Array Nat) (low high : Nat), low + 1 < high → high ≤ map.size →
      ∃ q, (∀ fuel, high - low ≤ fuel → sortZone cmp fuel 0 ⟨map, #[]⟩ low high = some q) ∧
        Rearranged low high map q.map ∧ (∀ r ∈ q.rounds, r.Keeps low high) ∧
        ∀ other, Alike low high map other → ∃ q', Alike low high q.map q'.map ∧
          ∀ fuel, high - low ≤ fuel → sortZone cmp fuel 0 ⟨other, #[]⟩ low high = some q') ∧
    ∀ (α : Type) (o : Ordered α),
      (∀ l ∈ o.levels, ∀ x ∈ o.source.rest, l.compare (l.key x) (l.key x) = .eq) → o.EmitsOnce := by
  constructor
  · intro cmp reflexive map low high proper bound
    obtain ⟨q, run⟩ := exists_run reflexive 0 ⟨map, #[]⟩ low high bound
    refine ⟨q, fun fuel enough => run.sortZone_eq proper enough, run.rearranged, ?_, ?_⟩
    · obtain ⟨made, rounds, keep⟩ := run.keeps
      intro r member
      rw [rounds, Array.empty_append] at member
      exact keep r member
    · intro other alike
      have start : Alike low high (⟨map, #[]⟩ : Progress).map (⟨other, #[]⟩ : Progress).map := alike
      obtain ⟨q', otherRun, endAlike⟩ := run.alike reflexive bound start
      exact ⟨q', endAlike, fun fuel enough => otherRun.sortZone_eq proper enough⟩
  · intro α o reflexive
    exact Ordered.emitsOnce (Ordered.rank_self reflexive)

/-- Each number comes before the next one, in a circle of three. -/
def circular : Ranking := fun a b =>
  if a % 3 = b % 3 then .eq else if (a + 1) % 3 = b % 3 then .lt else .gt

/-- Numbers in the order of the circle, turned around. -/
def turning : Ordered Nat := .orderBy (.ofList [2, 0, 1, 0] false) ⟨Nat, id, circular, .descending⟩

/-- Three entries in a circle are sorted between two that stay and may as well be others, and the
numbers are given once each. -/
theorem reflexive_sort_safe_circular :
    (∀ a, circular a a = .eq) ∧ (1 + 1 < 4 ∧ 4 ≤ #[7, 0, 1, 2, 8].size) ∧
      Alike 1 4 #[7, 0, 1, 2, 8] #[5, 0, 1, 2, 6] ∧
      (∃ q q', sortZone circular 3 0 ⟨#[7, 0, 1, 2, 8], #[]⟩ 1 4 = some q ∧
        sortZone circular 3 0 ⟨#[5, 0, 1, 2, 6], #[]⟩ 1 4 = some q' ∧
        Rearranged 1 4 #[7, 0, 1, 2, 8] q.map ∧ Alike 1 4 q.map q'.map) ∧
      turning.toList.Perm [2, 0, 1, 0] := by
  have reflexive : ∀ a, circular a a = .eq := fun a => if_pos rfl
  have alike : Alike 1 4 #[7, 0, 1, 2, 8] #[5, 0, 1, 2, 6] := by
    refine ⟨rfl, fun k lower upper => ?_⟩
    have place : k = 1 ∨ k = 2 ∨ k = 3 := by omega
    rcases place with rfl | rfl | rfl <;> rfl
  refine ⟨reflexive, by decide, alike, ?_, ?_⟩
  · obtain ⟨q, fuelled, rearranged, -, others⟩ :=
      reflexive_sort_safe.1 circular reflexive #[7, 0, 1, 2, 8] 1 4 (by decide) (by decide)
    obtain ⟨q', endAlike, otherFuelled⟩ := others _ alike
    exact ⟨q, q', fuelled 3 (by decide), otherFuelled 3 (by decide), rearranged, endAlike⟩
  · refine (reflexive_sort_safe.2 Nat turning ?_).elements
    intro l member x _
    rw [List.mem_singleton.1 member]
    exact reflexive x

end Collate.Sort
