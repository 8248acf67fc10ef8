import Collate.Proofs.Sort.Ordered

/-!
# Sorting by the last level first

A chain of levels compares by its first level and turns to the next one for ties. Sorts that are
stable come to the same list the other way around: sort by the last level, then sort what this
gave by the level before it, and so on up to the first. The places that ties fall back to are
other places each time, those of the list that was sorted before.
-/

set_option autoImplicit false

namespace Collate.Sort

theorem rankChain_append {α : Type} (before after : List (Level α)) (x y : α) :
    rankChain (before ++ after) x y = (rankChain before x y).then (rankChain after x y) := by
  induction before with
  | nil => rfl
  | cons l rest ih => rw [List.cons_append, rankChain, ih, rankChain, Ordering.then_assoc]

namespace Ordered

variable {α : Type} {o : Ordered α}

/-- What is lawful stays so with fewer levels and fewer elements. -/
theorem Lawful.narrow (laws : o.Lawful) {p : Ordered α} (levels : p.levels ⊆ o.levels)
    (elements : p.source.rest ⊆ o.source.rest) : p.Lawful := by
  intro l member
  apply (laws l (levels member)).mono
  rintro k ⟨x, inside, rfl⟩
  exact ⟨x, elements inside, rfl⟩

/-- A chain cut in two sorts as its second half and then its first half do. -/
theorem Lawful.toList_eq_of_append (laws : o.Lawful) (first second : Ordered α)
    (cut : o.levels = second.levels ++ first.levels) (start : first.source.rest = o.source.rest)
    (handed : second.source.rest = first.toList) : o.toList = second.toList := by
  have firstLaws : first.Lawful := laws.narrow (by simp [cut]) (by simp [start])
  have sorted := firstLaws.stablySorted
  rw [start] at sorted
  have secondLaws : second.Lawful := by
    refine laws.narrow (by simp [cut]) ?_
    rw [handed]
    exact sorted.perm.subset
  have again := secondLaws.stablySorted
  rw [handed] at again
  -- what comes out is a stable sort by both halves, and there is one only
  have both : StablySorted (rankChain o.levels) o.source.rest second.toList := by
    rw [cut, funext₂ (rankChain_append second.levels first.levels)]
    refine sorted.lexicographic ?_ again
    intro x member
    apply secondLaws.chain.self
    rw [handed]
    exact sorted.perm.mem_iff.2 member
  exact laws.stablySorted.unique laws.chain both

/-- Elements sorted by each level on its own, the last level first. -/
def oneByOne (levels : List (Level α)) (xs : List α) : List α :=
  levels.foldr (fun level sorted => (orderBy (.ofList sorted true) level).toList) xs

/-- A chain sorts as its levels do one by one. -/
theorem Lawful.toList_eq_oneByOne (laws : o.Lawful) : o.toList = oneByOne o.levels o.source.rest := by
  obtain ⟨source, levels, seed⟩ := o
  induction levels with
  | nil =>
    -- without levels all elements tie, so they stay as they stood
    have unsorted : StablySorted (rankChain []) source.rest source.rest :=
      ⟨List.Perm.refl _, List.pairwise_of_forall fun _ _ => nofun, fun _ _ => rfl⟩
    exact laws.stablySorted.unique laws.chain unsorted
  | cons level rest ih =>
    have behind : (⟨source, rest, seed⟩ : Ordered α).Lawful :=
      laws.narrow (List.subset_cons_self level rest) (List.Subset.refl _)
    exact laws.toList_eq_of_append ⟨source, rest, seed⟩ (orderBy (.ofList (oneByOne rest source.rest) true) level)
      rfl rfl (ih behind).symm

/-- **A chain of levels sorts as successive sorts do.** If the levels are total preorders on the keys
that occur, sorting by a chain gives the list that sorting by its second half gives when this is
then sorted by the first half, wherever the chain is cut and however the list in between is handed
on. So a level behind a chain may be a sort of its own before it, and a whole chain one sort for
each of its levels. -/
theorem sorts_in_succession (laws : o.Lawful) :
    (∀ first second : Ordered α, o.levels = second.levels ++ first.levels →
      first.source.rest = o.source.rest → second.source.rest = first.toList → o.toList = second.toList) ∧
    (∀ (chain : Ordered α) (level : Level α), o = chain.thenBy level → ∀ sized,
      o.toList = toList { chain with source := .ofList (orderBy chain.source level).toList sized }) ∧
    o.toList = oneByOne o.levels o.source.rest := by
  refine ⟨laws.toList_eq_of_append, ?_, laws.toList_eq_oneByOne⟩
  rintro chain level rfl sized
  exact laws.toList_eq_of_append (orderBy chain.source level) _ rfl rfl rfl

/-- Numbers by their units, upwards. -/
def units : Level Nat := .natural (· % 10) .ascending

/-- Sorted by units first, numbers of equal tens stand by their units after the sort by tens. -/
theorem sorts_in_succession_tensDown :
    (tensDown.thenBy units).Lawful ∧ (orderBy tensDown.source units).toList = [20, 11, 12, 25] ∧
      (tensDown.thenBy units).toList = toList { tensDown with source := .ofList [20, 11, 12, 25] true } ∧
      (tensDown.thenBy units).toList = [20, 25, 11, 12] := by
  have laws : (tensDown.thenBy units).Lawful := by
    have numbers : Comparison.TotalPreorderOn (compare : Comparison Nat) fun _ => True :=
      Comparison.totalPreorderOn_of_transCmp _
    intro l member
    rcases List.mem_cons.1 member with rfl | last
    · exact numbers.mono fun _ _ => trivial
    · rw [List.mem_singleton.1 last]
      exact numbers.mono fun _ _ => trivial
  have prior : (orderBy tensDown.source units).toList = [20, 11, 12, 25] := by decide +kernel
  have replaced := (sorts_in_succession laws).2.1 tensDown units rfl true
  rw [prior] at replaced
  exact ⟨laws, prior, replaced, by decide +kernel⟩

end Ordered

end Collate.Sort
