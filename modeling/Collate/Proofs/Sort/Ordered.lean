import Collate.Proofs.Sort.Arrangement
import Collate.Proofs.Sort.Emission
import Collate.Proofs.Sort.Stable
import Mathlib.Data.List.Chain

/-!
# Ordered sequences under total preorders

A chain of levels compares elements; an execution compares places, by the keys of the elements
there and at last by themselves. If the levels are total preorders on the keys that occur, so is
the order of the places, and it is strict. One arrangement has the places in that order, and the
elements given in this arrangement are the stable sort of the source.
-/

set_option autoImplicit false

namespace Collate.Sort

section Chains

variable {α : Type}

/-- Levels that are total preorders on the keys that occur make one of the elements. -/
theorem totalPreorderOn_rankChain {S : α → Prop} (levels : List (Level α))
    (laws : ∀ l ∈ levels, l.compare.TotalPreorderOn fun k => ∃ x, S x ∧ l.key x = k) :
    Comparison.TotalPreorderOn (rankChain levels) S := by
  induction levels with
  | nil => exact ⟨fun _ _ _ _ => rfl, fun _ _ _ _ _ _ _ _ => nofun⟩
  | cons l rest ih =>
    have keys := ((laws l List.mem_cons_self).comap l.key).mono fun x sx => ⟨x, sx, rfl⟩
    exact (keys.direct l.direction).lexicographic (ih fun l member => laws l (List.mem_cons_of_mem _ member))

/-- Columns compare two places as the chain compares the elements there, and a tie by the places. -/
theorem rankColumns_map_column (levels : List (Level α)) (items : Array α) {a b : Nat} {x y : α}
    (aFound : items[a]? = some x) (bFound : items[b]? = some y) :
    rankColumns (levels.map fun l => l.column items) a b = (rankChain levels x y).then (compare a b) := by
  induction levels with
  | nil => rfl
  | cons l rest ih =>
    have aKey : (l.column items).keys[a]? = some (l.key x) :=
      (Array.getElem?_map ..).trans (congrArg (Option.map l.key) aFound)
    have bKey : (l.column items).keys[b]? = some (l.key y) :=
      (Array.getElem?_map ..).trans (congrArg (Option.map l.key) bFound)
    have column : (l.column items).rank a b = l.rank x y := by
      rw [Column.rank, aKey, bKey]
      rfl
    rw [List.map_cons, rankColumns, column, ih, rankChain, Ordering.then_assoc]

/-- The elements at some places that pass a test are those at the places where one passes it. -/
theorem filter_filterMap_getElem? (items : List α) (test : α → Bool) (places : List Nat) :
    (places.filterMap (items[·]?)).filter test =
      (places.filter fun i => (items[i]?).any test).filterMap (items[·]?) := by
  rw [List.filter_filterMap, List.filterMap_filter]
  congr 1
  funext i
  cases items[i]? <;> simp [Option.filter]

end Chains

namespace Ordered

variable {α : Type} {o : Ordered α}

/-- A place of the source stands before another: by the elements there, and by itself if they tie. -/
def Before (o : Ordered α) (a b : Nat) : Prop :=
  ∃ x y, o.source.rest[a]? = some x ∧ o.source.rest[b]? = some y ∧
    (rankChain o.levels x y).then (compare a b) = .lt

/-- An arrangement of the source in which each place stands before the next. -/
structure Arranges (o : Ordered α) (p : Array Nat) : Prop where
  places : p.Perm (Array.range o.source.rest.length)
  increasing : p.toList.IsChain o.Before

/-- The element at a place ties with another. -/
def tiesAt (o : Ordered α) (x : α) (i : Nat) : Bool :=
  (o.source.rest[i]?).any fun y => rankChain o.levels x y = .eq

/-- Every level is a total preorder on the keys of the elements. -/
def Lawful (o : Ordered α) : Prop :=
  ∀ l ∈ o.levels, l.compare.TotalPreorderOn fun k => ∃ x ∈ o.source.rest, l.key x = k

theorem lawful_of_transCmp (laws : ∀ l ∈ o.levels, Std.TransCmp l.compare) : o.Lawful := by
  intro l member
  have := laws l member
  exact Comparison.totalPreorderOn_of_transCmp _

theorem rank_eq {a b : Nat} {x y : α} (aFound : o.source.rest[a]? = some x)
    (bFound : o.source.rest[b]? = some y) :
    o.execution.rank a b = (rankChain o.levels x y).then (compare a b) := by
  refine rankColumns_map_column o.levels _ ?_ ?_
  · rw [Buffer.items_ofSource, List.getElem?_toArray, aFound]
  · rw [Buffer.items_ofSource, List.getElem?_toArray, bFound]

theorem before_iff {a b : Nat} : o.Before a b ↔
    a < o.source.rest.length ∧ b < o.source.rest.length ∧ o.execution.rank a b = .lt := by
  constructor
  · rintro ⟨x, y, aFound, bFound, before⟩
    rw [← rank_eq aFound bFound] at before
    exact ⟨(List.getElem?_eq_some_iff.1 aFound).1, (List.getElem?_eq_some_iff.1 bFound).1, before⟩
  · rintro ⟨aBound, bBound, before⟩
    have aFound := List.getElem?_eq_getElem aBound
    have bFound := List.getElem?_eq_getElem bBound
    rw [rank_eq aFound bFound] at before
    exact ⟨_, _, aFound, bFound, before⟩

/-- Only a place is equal to itself. -/
theorem eq_of_rank_eq {a b : Nat} (aBound : a < o.source.rest.length) (bBound : b < o.source.rest.length)
    (tie : o.execution.rank a b = .eq) : a = b := by
  rw [rank_eq (List.getElem?_eq_getElem aBound) (List.getElem?_eq_getElem bBound)] at tie
  exact Nat.compare_eq_eq.1 (Ordering.then_eq_eq.1 tie).2

theorem lt_of_mem_places {map : Array Nat} (perm : map.Perm (Array.range o.source.rest.length)) :
    ∀ a ∈ map, a < o.source.rest.length :=
  fun _ member => Array.mem_range.1 (perm.mem_iff.1 member)

section Laws

variable (laws : o.Lawful)
include laws

theorem Lawful.chain : Comparison.TotalPreorderOn (rankChain o.levels) (· ∈ o.source.rest) :=
  totalPreorderOn_rankChain o.levels laws

theorem Lawful.rank_self (a : Nat) : o.execution.rank a a = .eq :=
  Ordered.rank_self (fun l level x member => (laws l level).self ⟨x, member, rfl⟩) a

/-- The order of the places is a total preorder. -/
theorem Lawful.places : Comparison.TotalPreorderOn o.execution.rank (· < o.source.rest.length) := by
  -- a place with its element is compared by the chain first
  have numbers : Comparison.TotalPreorderOn (compare : Comparison Nat) fun _ => True :=
    Comparison.totalPreorderOn_of_transCmp _
  have pairs : Comparison.TotalPreorderOn
      (fun p q : α × Nat => (rankChain o.levels p.1 q.1).then (compare p.2 q.2)) (·.1 ∈ o.source.rest) :=
    (laws.chain.comap Prod.fst).lexicographic ((numbers.comap Prod.snd).mono fun _ _ => trivial)
  have reads {a b : Nat} (aBound : a < o.source.rest.length) (bBound : b < o.source.rest.length) :
      o.execution.rank a b =
        (rankChain o.levels o.source.rest[a] o.source.rest[b]).then (compare a b) :=
    rank_eq (List.getElem?_eq_getElem aBound) (List.getElem?_eq_getElem bBound)
  refine ⟨fun a b sa sb => ?_, fun a b c sa sb sc => ?_⟩
  · rw [reads sa sb, reads sb sa]
    exact pairs.swap (o.source.rest[a], a) (o.source.rest[b], b) (List.getElem_mem sa) (List.getElem_mem sb)
  · rw [reads sa sb, reads sb sc, reads sa sc]
    exact pairs.trans (o.source.rest[a], a) (o.source.rest[b], b) (o.source.rest[c], c)
      (List.getElem_mem sa) (List.getElem_mem sb) (List.getElem_mem sc)

theorem Lawful.before_trans {a b c : Nat} (ab : o.Before a b) (bc : o.Before b c) : o.Before a c := by
  rw [before_iff] at ab bc ⊢
  exact ⟨ab.1, bc.2.1, laws.places.lt_trans ab.1 ab.2.1 bc.2.1 ab.2.2 bc.2.2⟩

/-- In an arrangement of the source each place stands before all that follow. -/
theorem Lawful.pairwise_before {p : Array Nat} (arranges : o.Arranges p) : p.toList.Pairwise o.Before := by
  have transitive : IsTrans Nat o.Before := ⟨fun _ _ _ => laws.before_trans⟩
  exact List.isChain_iff_pairwise.1 arranges.increasing

/-- The sort arranges the source. -/
theorem Lawful.arranges : o.Arranges o.permutation := by
  have places := permutation_perm laws.rank_self
  have ordered : o.permutation.toList.Pairwise fun a b => o.execution.rank a b ≠ .gt :=
    arrange_ordered laws.places laws.rank_self (lt_of_mem_places (by rw [map_execution]))
  have distinct : o.permutation.toList.Nodup :=
    (toList_permutation_perm laws.rank_self).nodup_iff.2 List.nodup_range
  have before : o.permutation.toList.Pairwise o.Before := by
    refine List.Pairwise.imp_of_mem ?_ (ordered.and distinct)
    intro a b aMember bMember ⟨notAfter, apart⟩
    have aBound := lt_of_mem_places places a (Array.mem_toList_iff.1 aMember)
    have bBound := lt_of_mem_places places b (Array.mem_toList_iff.1 bMember)
    rw [before_iff]
    refine ⟨aBound, bBound, ?_⟩
    cases answer : o.execution.rank a b with
    | lt => rfl
    | eq => exact absurd (eq_of_rank_eq aBound bBound answer) apart
    | gt => exact absurd answer notAfter
  exact ⟨places, before.isChain⟩

/-- The sort comes to any arrangement of the source from whatever order the places are in. -/
theorem Lawful.arrange_eq {p map : Array Nat} (arranges : o.Arranges p)
    (perm : map.Perm (Array.range o.source.rest.length)) : (arrange o.execution.rank map).map = p := by
  refine Sort.arrange_eq laws.places laws.rank_self (lt_of_mem_places perm) (fun a b => eq_of_rank_eq)
    (arranges.places.trans perm.symm) ?_
  · refine (laws.pairwise_before arranges).imp ?_
    intro a b before
    simp [(before_iff.1 before).2.2]

/-- Among the places whose elements tie with one, standing before is having the smaller number. -/
theorem Lawful.pairwise_tiesAt {x : α} (member : x ∈ o.source.rest) {p : Array Nat}
    (arranges : o.Arranges p) : (p.toList.filter (o.tiesAt x)).Pairwise (· < ·) := by
  refine List.Pairwise.imp_of_mem ?_ ((laws.pairwise_before arranges).filter _)
  rintro a b aMember bMember ⟨y, z, aFound, bFound, before⟩
  have xy : rankChain o.levels x y = .eq := by simpa [tiesAt, aFound] using (List.mem_filter.1 aMember).2
  have xz : rankChain o.levels x z = .eq := by simpa [tiesAt, bFound] using (List.mem_filter.1 bMember).2
  have yMember : y ∈ o.source.rest := List.mem_of_getElem? aFound
  have zMember : z ∈ o.source.rest := List.mem_of_getElem? bFound
  have yz := laws.chain.eq_trans yMember member zMember (laws.chain.eq_symm member yMember xy) xz
  rw [yz, Ordering.eq_then] at before
  exact Nat.compare_eq_lt.1 before

/-- **The elements given** are a stable sort of the source by the chain of levels. -/
theorem Lawful.stablySorted : StablySorted (rankChain o.levels) o.source.rest o.toList := by
  have before := laws.pairwise_before laws.arranges
  have perm := toList_permutation_perm laws.rank_self
  refine ⟨toList_perm laws.rank_self, ?_, ?_⟩
  · rw [toList_eq laws.rank_self]
    refine before.filterMap _ ?_
    rintro a b ⟨x, y, aFound, bFound, before⟩ x' aFound' y' bFound'
    obtain rfl : x = x' := Option.some.inj (aFound.symm.trans aFound')
    obtain rfl : y = y' := Option.some.inj (bFound.symm.trans bFound')
    intro after
    rw [after] at before
    cases before
  · intro x member
    have places : o.permutation.toList.filter (o.tiesAt x) =
        (List.range o.source.rest.length).filter (o.tiesAt x) :=
      List.Perm.eq_of_pairwise (fun a b _ _ ab ba => absurd ab (Nat.lt_asymm ba))
        (laws.pairwise_tiesAt member laws.arranges) (List.pairwise_lt_range.filter _) (perm.filter _)
    calc tied (rankChain o.levels) x o.toList
        = (o.permutation.toList.filter (o.tiesAt x)).filterMap (o.source.rest[·]?) := by
          rw [tied, toList_eq laws.rank_self, filter_filterMap_getElem?]
          rfl
      _ = ((List.range o.source.rest.length).filterMap (o.source.rest[·]?)).filter
            fun y => rankChain o.levels x y = .eq := by
          rw [places, filter_filterMap_getElem?]
          rfl
      _ = tied (rankChain o.levels) x o.source.rest := by
          rw [filterMap_range_getElem?]
          rfl

end Laws

/-- A source in the order of one level is its stable sort by the keys of that level. -/
theorem stablySorted_orderBy_iff {K : Type} {key : α → K} {cmp : Comparison K} {S : K → Prop}
    (order : cmp.TotalPreorderOn S) (source : Source α) (inside : ∀ x ∈ source.rest, S (key x))
    (direction : Direction) {ys : List α} :
    StablySorted (fun x y => direction.apply (cmp (key x) (key y))) source.rest ys ↔
      ys = (orderBy source ⟨K, key, cmp, direction⟩).toList := by
  have laws : (orderBy source ⟨K, key, cmp, direction⟩).Lawful := by
    intro l only
    obtain rfl := List.mem_singleton.1 only
    apply order.mono
    rintro k ⟨x, member, rfl⟩
    exact inside x member
  have chain := laws.chain
  have sorted := laws.stablySorted
  have rank : rankChain (orderBy source ⟨K, key, cmp, direction⟩).levels =
      fun x y => direction.apply (cmp (key x) (key y)) := funext₂ fun _ _ => Ordering.then_eq
  rw [rank] at chain sorted
  constructor
  · intro other
    exact other.unique chain sorted
  · rintro rfl
    exact sorted

/-- **An ordered sequence is the stable sort of its source.** If the levels are total preorders on the
keys that occur, the places end in the one arrangement in which each stands strictly before the
next, and the elements at these places, given one by one, are the one stable sort of the source.
The sort comes to the same arrangement from any other, its own included. -/
theorem sorts_stably (laws : o.Lawful) :
    o.toList.length = o.source.rest.length ∧ o.EmitsOnce ∧
      o.Arranges o.permutation ∧ (∀ p, o.Arranges p → p = o.permutation) ∧
      (∀ ys, StablySorted (rankChain o.levels) o.source.rest ys ↔ ys = o.toList) ∧
      o.toList = o.source.rest.mergeSort (fun a b => (rankChain o.levels a b).isLE) ∧
      (∀ map, map.Perm (Array.range o.source.rest.length) →
        (arrange? o.execution.rank map).map Progress.map = some o.permutation) ∧
      o.execution.sort.sort = o.execution.sort := by
  have arranges := laws.arranges
  have sorted := laws.stablySorted
  have emits := emitsOnce laws.rank_self
  refine ⟨emits.elements.length_eq, emits, arranges, ?_, ?_, ?_, ?_, ?_⟩
  · intro p other
    rw [← laws.arrange_eq other (Array.Perm.refl _)]
    exact laws.arrange_eq arranges (Array.Perm.refl _)
  · intro ys
    constructor
    · intro other
      exact other.unique laws.chain sorted
    · rintro rfl
      exact sorted
  · exact sorted.unique laws.chain (stablySorted_mergeSort laws.chain)
  · intro map perm
    rw [arrange?_eq laws.rank_self map, Option.map_some, laws.arrange_eq arranges perm]
  · have again : (arrange o.execution.rank o.permutation).map = o.permutation :=
      laws.arrange_eq arranges arranges.places
    exact congrArg (fun map => { o.execution with map := map }) again

/-- Numbers by their tens, downwards. -/
def tensDown : Ordered Nat :=
  orderBy (.ofList [12, 25, 11, 20] true) (.natural (· / 10) .descending)

/-- Numbers of equal tens stay as they stood although the level runs downwards. -/
theorem sorts_stably_tensDown : tensDown.Lawful ∧ tensDown.toList = [25, 20, 12, 11] := by
  have laws : tensDown.Lawful := by
    intro l member
    have numbers : Comparison.TotalPreorderOn (compare : Comparison Nat) fun _ => True :=
      Comparison.totalPreorderOn_of_transCmp _
    rw [List.mem_singleton.1 member]
    exact numbers.mono fun _ _ => trivial
  obtain ⟨-, -, -, -, stable, -⟩ := sorts_stably laws
  exact ⟨laws, ((stable _).1 ⟨by decide, by decide, by decide⟩).symm⟩

end Ordered

end Collate.Sort
