import Collate.Proofs.Query.WellFormed
import Collate.Proofs.Json.Preorder
import Collate.Proofs.Sort.Ordered

/-!
# An order step is a stable sort

An order step compares records by the values at its paths, one level after the other. Where no two
integers among these values become one number of the 64-bit format, the order of the values is a
total preorder, so there is one stable sort of the records, and this is what the step gives. A
value that is missing counts as null, which comes before all other values.
-/

set_option autoImplicit false

namespace Collate.Query

/-! ## Records by levels -/

/-- How two records stand on a level, by the values at its path. -/
def rankAt (p : KeyPath) (l : OrderLevel) (a b : Json) : Ordering :=
  l.direction.apply (Json.order l.ignoreCase (p.valueOrNull a) (p.valueOrNull b))

/-- How two records stand on some levels, given with their paths: the first level that tells them
apart decides. -/
def rankRecords : List (KeyPath × OrderLevel) → Json → Json → Ordering
  | [], _, _ => .eq
  | (p, l) :: rest, a, b => (rankAt p l a b).then (rankRecords rest a b)

theorem rankAt_swap (p : KeyPath) (l : OrderLevel) (a b : Json) : rankAt p l b a = (rankAt p l a b).swap := by
  rw [rankAt, rankAt, Json.order_swap l.ignoreCase (p.valueOrNull a)]
  cases l.direction <;> rfl

theorem rankRecords_swap (levels : List (KeyPath × OrderLevel)) (a b : Json) :
    rankRecords levels b a = (rankRecords levels a b).swap := by
  induction levels with
  | nil => rfl
  | cons l rest ih => rw [rankRecords, rankRecords, ih, rankAt_swap, Ordering.swap_then]

theorem rankRecords_append (before after : List (KeyPath × OrderLevel)) (a b : Json) :
    rankRecords (before ++ after) a b = (rankRecords before a b).then (rankRecords after a b) := by
  induction before with
  | nil => rfl
  | cons l rest ih => rw [List.cons_append, rankRecords, ih, rankRecords, Ordering.then_assoc]

/-- A missing value comes before one that is found, as the direction has it. -/
theorem rankAt_missing {p : KeyPath} {l : OrderLevel} {a b v : Json} (missing : p.lookup a = none)
    (found : p.lookup b = some v) : rankAt p l a b = l.direction.apply .lt := by
  have first : Json.order l.ignoreCase .null v = .lt := by
    cases v <;> first | rfl | exact absurd rfl (KeyPath.ne_null_of_lookup found)
  rw [rankAt, KeyPath.valueOrNull, KeyPath.valueOrNull, missing, found, Option.getD_none, Option.getD_some, first]

/-! ## The step as a sort -/

/-- Some records in the order of levels. -/
def orderedBy (levels : List (KeyPath × OrderLevel)) (records : List Json) : Sort.Ordered Json where
  source := .ofList records true
  levels := levels.map fun l => sortLevel l.1 l.2

theorem rankChain_orderedBy (levels : List (KeyPath × OrderLevel)) (records : List Json) :
    Sort.rankChain (orderedBy levels records).levels = rankRecords levels := by
  funext a b
  unfold orderedBy
  induction levels with
  | nil => rfl
  | cons l rest ih =>
    rw [rankRecords, ← ih]
    rfl

section Levels

variable {levels : List (KeyPath × OrderLevel)} (parsed : ∀ l ∈ levels, path l.2.key = .ok l.1)
include parsed

theorem sortChain_eq : sortChain (levels.map Prod.snd) = .ok (levels.map fun l => sortLevel l.1 l.2) := by
  induction levels with
  | nil => rfl
  | cons l rest ih =>
    have behind := ih fun l member => parsed l (List.mem_cons_of_mem _ member)
    rw [List.map_cons, sortChain, parsed l List.mem_cons_self, behind, List.map_cons]

/-- An order step gives its records sorted, whatever the configuration. -/
theorem runStep_order_eq (some : levels ≠ []) (e : Executor) (records : List Json) :
    e.runStep (.order (levels.map Prod.snd)) records = .ok (orderedBy levels records).toList := by
  obtain ⟨l, rest, rfl⟩ := List.exists_cons_of_ne_nil some
  rw [Executor.runStep, runOrder, sortChain_eq parsed]
  exact congrArg Except.ok (Sort.Ordered.toList_tuned (orderedBy (l :: rest) records) e.config)

end Levels

/-- The values at the paths of some levels have integers of up to 2⁵³ in size only. -/
def SmallKeys (levels : List (KeyPath × OrderLevel)) (records : List Json) : Prop :=
  ∀ l ∈ levels, ∀ r ∈ records, (l.1.valueOrNull r).Numbers (Number.Among fun n => n.natAbs ≤ 2 ^ 53)

theorem lawful_orderedBy {levels : List (KeyPath × OrderLevel)} {records : List Json}
    (wf : ∀ r ∈ records, r.WellFormed) (small : SmallKeys levels records) : (orderedBy levels records).Lawful := by
  intro level member
  obtain ⟨l, inside, rfl⟩ := List.mem_map.1 member
  apply (Json.totalPreorderOn_order l.2.ignoreCase Number.faithful_of_natAbs_le).mono
  rintro k ⟨r, there, rfl⟩
  exact ⟨l.1.wellFormed_valueOrNull (wf r there), small l inside r there⟩

/-- A list is the one stable sort of some records by levels. Among records that the levels before
one leave tied, those without a value at its path stand in front, or behind if the level descends. -/
structure OneStableSort (levels : List (KeyPath × OrderLevel)) (records out : List Json) : Prop where
  sorted : Sort.StablySorted (rankRecords levels) records out
  unique : ∀ ys, Sort.StablySorted (rankRecords levels) records ys → ys = out
  missing : ∀ before p l after, levels = before ++ (p, l) :: after → ∀ a b v, rankRecords before a b = .eq →
    p.lookup a = none → p.lookup b = some v →
      if l.descending then ¬ [a, b].Sublist out else ¬ [b, a].Sublist out

/-- In a sorted list no record stands behind one that it comes before. -/
theorem oneStableSort_of_stablySorted {levels : List (KeyPath × OrderLevel)} {records out : List Json}
    (laws : Comparison.TotalPreorderOn (rankRecords levels) (· ∈ records))
    (sorted : Sort.StablySorted (rankRecords levels) records out) : OneStableSort levels records out := by
  refine ⟨sorted, fun ys other => other.unique laws sorted, ?_⟩
  rintro before p l after rfl a b v tied missing found
  have rank : rankRecords (before ++ (p, l) :: after) a b =
      (l.direction.apply .lt).then (rankRecords after a b) := by
    rw [rankRecords_append, tied, Ordering.eq_then, rankRecords, rankAt_missing missing found]
  cases turned : l.descending with
  | true =>
    rw [if_pos rfl]
    intro stands
    apply List.pairwise_iff_forall_sublist.1 sorted.ordered stands
    rw [rank, OrderLevel.direction, turned]
    rfl
  | false =>
    rw [if_neg Bool.false_ne_true]
    intro stands
    apply List.pairwise_iff_forall_sublist.1 sorted.ordered stands
    rw [rankRecords_swap, rank, OrderLevel.direction, turned]
    rfl

/-- **An order step is the stable sort of its records** by its levels, the first of which counts most,
if the values at its paths have integers of up to 2⁵³ in size only. It is always made, and making it
again changes nothing. -/
theorem runStep_order_stable (e : Executor) {levels : List (KeyPath × OrderLevel)} (some : levels ≠ [])
    (parsed : ∀ l ∈ levels, path l.2.key = .ok l.1) {records : List Json}
    (wf : ∀ r ∈ records, r.WellFormed) (small : SmallKeys levels records) :
    ∃ out, e.runStep (.order (levels.map Prod.snd)) records = .ok out ∧ OneStableSort levels records out ∧
      e.runStep (.order (levels.map Prod.snd)) out = .ok out := by
  have lawful := lawful_orderedBy wf small
  have laws := lawful.chain
  have sorted := lawful.stablySorted
  rw [rankChain_orderedBy] at laws sorted
  change Sort.StablySorted _ records _ at sorted
  refine ⟨_, runStep_order_eq parsed some e records, oneStableSort_of_stablySorted laws sorted, ?_⟩
  generalize (orderedBy levels records).toList = out at sorted
  -- the second run is given the same keys, in another order
  have inside {r : Json} : r ∈ out → r ∈ records := sorted.perm.mem_iff.1
  have again : (orderedBy levels out).Lawful :=
    lawful_orderedBy (fun r member => wf r (inside member)) fun l level r member => small l level r (inside member)
  have sortedAgain := again.stablySorted
  have lawsAgain := again.chain
  rw [rankChain_orderedBy] at sortedAgain lawsAgain
  have unchanged : Sort.StablySorted (rankRecords levels) out out :=
    ⟨List.Perm.refl _, sorted.ordered, fun _ _ => rfl⟩
  rw [runStep_order_eq parsed some e out, sortedAgain.unique lawsAgain unchanged]

/-- Records by their scores, downwards, and then by their names in any case of letters. -/
def byScore : List (KeyPath × OrderLevel) :=
  [(⟨["score"]⟩, ⟨"score", true, false⟩), (⟨["name"]⟩, ⟨"name", false, true⟩)]

/-- A record with a score, if there is one, and a name. -/
def scored (name : String) : Option Number → Json
  | some score => .object [("name", .string name), ("score", .number score)]
  | none => .object [("name", .string name)]

/-- Three scores that are equal, a higher one, and a record without one. -/
def scores : List Json :=
  [scored "b" (some (.int 1)), scored "a" none, scored "B" (some (.float (Floating.ofInt 1))),
    scored "c" (some (.int 2)), scored "A" (some (.int 1))]

/-- The names of what a step gives, as texts. -/
def names (given : Except QueryError (List Json)) : Option (List (List Char)) :=
  given.toOption.map (List.map fun r => (KeyPath.valueOrNull ⟨["name"]⟩ r).text)

/-- An integer ties with its number, names that differ in case stay as they stood, and the record
without a score comes last. -/
theorem runStep_order_stable_byScore :
    let step := Step.order (byScore.map Prod.snd)
    byScore ≠ [] ∧ (∀ l ∈ byScore, path l.2.key = .ok l.1) ∧ (∀ r ∈ scores, r.WellFormed) ∧
      SmallKeys byScore scores ∧
      ∃ out, Executor.runStep {} step scores = .ok out ∧ OneStableSort byScore scores out ∧
        Executor.runStep {} step out = .ok out ∧
        names (.ok out) = some ["\"c\"".toList, "\"A\"".toList, "\"b\"".toList, "\"B\"".toList, "\"a\"".toList] := by
  intro step
  have parsed : ∀ l ∈ byScore, path l.2.key = .ok l.1 := by
    intro l member
    simp only [byScore, List.mem_cons, List.not_mem_nil, or_false] at member
    rcases member with rfl | rfl <;> rfl
  have finite : (Floating.ofInt 1 : Double).isFinite = true := Floating.isFinite_ofInt (by decide)
  have wf : ∀ r ∈ scores, r.WellFormed := by
    have before : compare "name" "score" = .lt := by decide
    intro r member
    simp only [scores, List.mem_cons, List.not_mem_nil, or_false] at member
    rcases member with rfl | rfl | rfl | rfl | rfl <;> constructor <;>
      simp [scored, Json.Sorted, Json.Increasing, Json.SortedFields, before, Json.Numbers, Json.NumbersFields,
        Number.Representable, finite]
  have small : SmallKeys byScore scores := by
    intro l level r member
    simp only [byScore, List.mem_cons, List.not_mem_nil, or_false] at level
    simp only [scores, List.mem_cons, List.not_mem_nil, or_false] at member
    rcases level with rfl | rfl <;> rcases member with rfl | rfl | rfl | rfl | rfl <;>
      simp [scored, KeyPath.valueOrNull, KeyPath.lookup, KeyPath.step, KeyPath.present, Json.fieldOf?, Json.Numbers,
        Number.Among]
  obtain ⟨out, made, sorted, again⟩ := runStep_order_stable {} (by decide) parsed wf small
  have named : names (Executor.runStep {} step scores) =
      some ["\"c\"".toList, "\"A\"".toList, "\"b\"".toList, "\"B\"".toList, "\"a\"".toList] := by
    decide +kernel
  exact ⟨by decide, parsed, wf, small, out, made, sorted, again, made ▸ named⟩

end Collate.Query
