import Collate.Proofs.Comparer.Preorder
import Collate.Proofs.Sort.Quick

/-!
# Quicksort under a total preorder

If the comparison is a total preorder on the entries, a run leaves its zone in order: each side
is in order by induction, and the pivot stands between the entries of one side and those of the
other, whichever side came first. Where only an entry is equal to itself, the order determines
the arrangement, so the sort finds the same one from any other.
-/

set_option autoImplicit false

namespace Collate.Sort

/-- In a zone no entry comes after one that follows it. -/
def Increasing (cmp : Ranking) (map : Array Nat) (low high : Nat) : Prop :=
  ∀ i j a b, low ≤ i → i < j → j < high → map[i]? = some a → map[j]? = some b → cmp a b ≠ .gt

/-- Entries up to the second side do not come after the pivot, entries from the end of the first
side on do not come before it. -/
structure Classified (cmp : Ranking) (pivot : Nat) (map : Array Nat) (r : Round) : Prop where
  before : Throughout map r.low r.cut.low fun entry => cmp pivot entry ≠ .lt
  behind : Throughout map r.cut.high r.high fun entry => cmp pivot entry ≠ .gt

section Zones

variable {cmp : Ranking} {S : Nat → Prop} {pivot low high : Nat} {map after : Array Nat} {r : Round}

theorem Throughout.narrow {inner outer : Nat} {P : Nat → Prop} (all : Throughout map low high P)
    (lower : low ≤ inner) (upper : outer ≤ high) : Throughout map inner outer P :=
  fun k entry after before => all k entry (by omega) (by omega)

/-- What is in order stays so when a zone apart from it is rearranged. -/
theorem Increasing.apart {inner outer : Nat} (h : Increasing cmp map inner outer)
    (moved : Rearranged low high map after) (apart : outer ≤ low ∨ high ≤ inner) :
    Increasing cmp after inner outer := by
  intro i j a b lower between upper aFound bFound
  rw [moved.outside i (by omega)] at aFound
  rw [moved.outside j (by omega)] at bFound
  exact h i j a b lower between upper aFound bFound

theorem Classified.left (c : Classified cmp pivot map r) (meet : r.cut.high ≤ r.cut.low)
    (moved : Rearranged r.left.1 r.left.2 map after) : Classified cmp pivot after r where
  before := (moved.widen (Nat.le_refl _) meet).throughout c.before
  behind := moved.throughout_apart (Or.inr (Nat.le_refl _)) c.behind

theorem Classified.right (c : Classified cmp pivot map r) (meet : r.cut.high ≤ r.cut.low)
    (moved : Rearranged r.right.1 r.right.2 map after) : Classified cmp pivot after r where
  before := moved.throughout_apart (Or.inl (Nat.le_refl _)) c.before
  behind := (moved.widen meet (Nat.le_refl _)).throughout c.behind

/-- Two sides in order with the pivot between them are in order together. -/
theorem Classified.increasing (c : Classified cmp pivot map r) (laws : Comparison.TotalPreorderOn cmp S)
    (pivotInside : S pivot) (inside : Throughout map r.low r.high S)
    (left : Increasing cmp map r.left.1 r.left.2) (right : Increasing cmp map r.right.1 r.right.2) :
    Increasing cmp map r.low r.high := by
  intro i j a b lower between upper aFound bFound
  by_cases both : j < r.cut.high
  · exact left i j a b lower between both aFound bFound
  by_cases neither : r.cut.low ≤ i
  · exact right i j a b neither between upper aFound bFound
  have sa : S a := inside i a lower (by omega) aFound
  have sb : S b := inside j b (by omega) upper bFound
  have ap : cmp a pivot ≠ .gt := laws.ne_gt_of_ne_lt pivotInside sa (c.before i a lower (by omega) aFound)
  exact laws.trans a pivot b sa pivotInside sb ap (c.behind j b (by omega) upper bFound)

end Zones

section Laws

variable {cmp : Ranking} {S : Nat → Prop} (laws : Comparison.TotalPreorderOn cmp S)
include laws

/-- **A run under a total preorder** leaves its zone in order. -/
theorem Run.increasing {depth low high : Nat} {p q : Progress} (run : Run cmp depth p low high q) :
    Throughout p.map low high S → Increasing cmp q.map low high := by
  induction run with
  | done =>
    intro _ i j a b lower between upper
    omega
  | @round depth p mid q low high pivot r made proper found split nested rest nestedOrder restOrder =>
    intro inside
    have middleInside := middle_inside (show low < high by omega)
    have pivotInside : S pivot := inside _ _ middleInside.1 middleInside.2 found
    have sides := split.sides made
    have lowEq : r.low = low := by rw [made]; rfl
    have highEq : r.high = high := by rw [made]; rfl
    subst lowEq highEq
    have cutClassified : Classified cmp pivot r.cut.map r := ⟨split.before, split.behind⟩
    have cutInside : Throughout r.cut.map r.low r.high S := split.rearranged.throughout inside
    have midInside : Throughout mid.map r.low r.high S :=
      (nested.rearranged.widen sides.1.lower sides.1.upper).throughout cutInside
    have lastInside : Throughout q.map r.low r.high S :=
      (rest.rearranged.widen sides.2.lower sides.2.upper).throughout midInside
    have meet : r.cut.high ≤ r.cut.low := by
      have meet := split.meet
      omega
    have nestedIncreasing := nestedOrder (cutInside.narrow sides.1.lower sides.1.upper)
    have restIncreasing := restOrder (midInside.narrow sides.2.lower sides.2.upper)
    have nestedMoved := nested.rearranged
    have restMoved := rest.rearranged
    rcases r.sides with ⟨nestedEq, restEq⟩ | ⟨nestedEq, restEq⟩
    · rw [nestedEq] at nestedMoved nestedIncreasing
      rw [restEq] at restMoved restIncreasing
      have classified := (cutClassified.left meet nestedMoved).right meet restMoved
      exact classified.increasing laws pivotInside lastInside
        (nestedIncreasing.apart restMoved (Or.inl meet)) restIncreasing
    · rw [nestedEq] at nestedMoved nestedIncreasing
      rw [restEq] at restMoved restIncreasing
      have classified := (cutClassified.right meet nestedMoved).left meet restMoved
      exact classified.increasing laws pivotInside lastInside
        restIncreasing (nestedIncreasing.apart restMoved (Or.inr meet))

variable (reflexive : ∀ a, cmp a a = .eq) {map : Array Nat} (inside : ∀ a ∈ map, S a)
include reflexive inside

/-- A whole arrangement is sorted. -/
theorem arrange_ordered : (arrange cmp map).map.toList.Pairwise fun a b => cmp a b ≠ .gt := by
  have run := run_arrange reflexive map
  have increasing := run.increasing laws fun k entry _ _ found => inside entry (Array.mem_of_getElem? found)
  rw [List.pairwise_iff_getElem]
  intro i j iBound jBound between
  have size : (arrange cmp map).map.size = map.size := run.rearranged.size_eq
  rw [Array.length_toList] at iBound jBound
  exact increasing i j _ _ (Nat.zero_le i) between (by omega) (by simp) (by simp)

/-- **The sort finds the one arrangement in order**, from whatever arrangement it starts, if only an
entry is equal to itself. -/
theorem arrange_eq (strict : ∀ a b, S a → S b → cmp a b = .eq → a = b) {ordered : Array Nat}
    (perm : ordered.Perm map) (increasing : ordered.toList.Pairwise fun a b => cmp a b ≠ .gt) :
    (arrange cmp map).map = ordered := by
  have sorted := arrange_perm reflexive map
  have same : (arrange cmp map).map.toList = ordered.toList := by
    refine List.Perm.eq_of_pairwise ?_ (arrange_ordered laws reflexive inside) increasing
      (sorted.trans perm.symm).toList
    intro a b aMember bMember ab ba
    have sa : S a := inside a (sorted.mem_iff.1 (Array.mem_toList_iff.1 aMember))
    have sb : S b := inside b (perm.mem_iff.1 (Array.mem_toList_iff.1 bMember))
    exact strict a b sa sb (laws.eq_of_ne_gt sa sb ab ba)
  exact Array.toList_inj.1 same

end Laws

end Collate.Sort
