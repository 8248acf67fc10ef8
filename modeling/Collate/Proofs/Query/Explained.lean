import Collate.Proofs.Query.Validation
import Collate.Proofs.Text.Blank

/-!
# What the explanation of a query tells

A query is explained with a line for each step. If the names in it have no blanks, every part of a
line ends where a blank or the line does, so the parts can be taken off one after the other, and two
queries with one explanation have the same steps up to what the lines leave out. They leave out
whether a join takes capitals for small letters, which a group and a level of an order do tell.
-/

set_option autoImplicit false

namespace Collate.Query

/-! ## What a line is made of -/

/-- The dataset, the key paths and the field that a join is written with. -/
def JoinSpec.names (s : JoinSpec) : List String := [s.inner, s.outerKey, s.innerKey, s.into]

/-- The names that a step is written with: key paths, datasets and fields. -/
def Step.names : Step → List String
  | .group key element _ => key :: element.toList
  | .order levels => levels.map OrderLevel.key
  | .join s => s.names
  | .groupJoin s => s.names

/-- No name in a query has a blank. -/
def Solid (q : Query) : Prop := ∀ step ∈ q.steps, ∀ name ∈ step.names, Text.Solid name.toList

instance (q : Query) : Decidable q.Solid :=
  inferInstanceAs (Decidable (∀ step ∈ q.steps, ∀ name ∈ step.names, Text.Solid name.toList))

/-- A join as its line tells it: without its case setting. -/
def JoinSpec.told (s : JoinSpec) : JoinSpec := { s with ignoreCase := false }

/-- A step as its line tells it. -/
def Step.told : Step → Step
  | .join s => .join s.told
  | .groupJoin s => .groupJoin s.told
  | step => step

/-- The case setting of a step that joins. -/
def Step.joinCase? : Step → Option Bool
  | .join s => some s.ignoreCase
  | .groupJoin s => some s.ignoreCase
  | _ => none

/-- The case settings of the joins of a query, in order. -/
def joinCases (q : Query) : List Bool := q.steps.filterMap Step.joinCase?

/-! ## Taking a line apart -/

section Parts

variable {r s : List Char}

/-- Two lines that open alike go on from there. -/
theorem opening_append_cancel (opening : String) {a b : String}
    (same : (opening ++ a).toList ++ r = (opening ++ b).toList ++ s) : a.toList ++ r = b.toList ++ s := by
  rw [String.toList_append, String.toList_append, List.append_assoc, List.append_assoc] at same
  exact List.append_cancel_left same

/-- A mark is told from none by the blank in front of it. -/
theorem caseMark_append_inj {x y : Bool} (free : r.head? ≠ some ' ') (free' : s.head? ≠ some ' ')
    (same : (Step.caseMark x).toList ++ r = (Step.caseMark y).toList ++ s) : x = y ∧ r = s := by
  cases x <;> cases y
  · exact ⟨rfl, by simpa [Step.caseMark] using same⟩
  · have marked : r = ' ' :: ("(ignore case)".toList ++ s) := by simpa [Step.caseMark] using same
    exact absurd (by rw [marked]; rfl) free
  · have marked : ' ' :: ("(ignore case)".toList ++ r) = s := by simpa [Step.caseMark] using same
    exact absurd (by rw [← marked]; rfl) free'
  · exact ⟨rfl, List.append_cancel_left same⟩

theorem parted_caseMark (x : Bool) (parted : Text.Parted r) : Text.Parted ((Step.caseMark x).toList ++ r) := by
  cases x
  · simpa [Step.caseMark] using parted
  · exact Text.parted_cons rfl _

/-- The direction of a level as it is written behind the level's key. -/
def directionText (descending : Bool) : String := if descending then " desc" else " asc"

theorem parted_directionText (descending : Bool) (r : List Char) :
    Text.Parted ((directionText descending).toList ++ r) := by
  cases descending <;> exact Text.parted_cons rfl _

theorem directionText_append_inj {x y : Bool} (same : (directionText x).toList ++ r = (directionText y).toList ++ s) :
    x = y ∧ r = s := by
  cases x <;> cases y
  · exact ⟨rfl, List.append_cancel_left same⟩
  · simp [directionText] at same
  · simp [directionText] at same
  · exact ⟨rfl, List.append_cancel_left same⟩

theorem toList_describeLevel (l : OrderLevel) (r : List Char) :
    (Step.describeLevel l).toList ++ r =
      l.key.toList ++ ((directionText l.descending).toList ++ ((Step.caseMark l.ignoreCase).toList ++ r)) := by
  simp [Step.describeLevel, directionText, List.append_assoc]

theorem describeLevel_append_inj {l m : OrderLevel} (solid : Text.Solid l.key.toList)
    (solid' : Text.Solid m.key.toList) (free : r.head? ≠ some ' ') (free' : s.head? ≠ some ' ')
    (same : (Step.describeLevel l).toList ++ r = (Step.describeLevel m).toList ++ s) : l = m ∧ r = s := by
  rw [toList_describeLevel, toList_describeLevel] at same
  obtain ⟨keys, same⟩ := solid.append_inj solid' (parted_directionText _ _) (parted_directionText _ _) same
  obtain ⟨directions, same⟩ := directionText_append_inj same
  obtain ⟨marks, rest⟩ := caseMark_append_inj free free' same
  have levels : l = m := by
    cases l
    cases m
    rw [OrderLevel.mk.injEq]
    exact ⟨String.toList_inj.1 keys, directions, marks⟩
  exact ⟨levels, rest⟩

/-- A level is no empty line. -/
theorem describeLevel_append_ne {l : OrderLevel} (solid : Text.Solid l.key.toList) (r s : List Char) :
    (Step.describeLevel l).toList ++ r ≠ '\n' :: s := by
  intro same
  rw [toList_describeLevel] at same
  have nothing : Text.Solid [] := fun c member => nomatch member
  obtain ⟨-, same⟩ := solid.append_inj nothing (parted_directionText _ _) (Text.parted_cons rfl s) same
  cases down : l.descending <;> simp [directionText, down] at same

/-- The levels behind the first of an order step. -/
def furtherLevels (levels : List OrderLevel) : List Char :=
  levels.flatMap fun l => ", then ".toList ++ (Step.describeLevel l).toList

theorem furtherLevels_cons (l : OrderLevel) (rest : List OrderLevel) (r : List Char) :
    furtherLevels (l :: rest) ++ r =
      ", then ".toList ++ ((Step.describeLevel l).toList ++ (furtherLevels rest ++ r)) := by
  simp [furtherLevels]

theorem toList_intercalate_levels (l : OrderLevel) (rest : List OrderLevel) :
    (", then ".intercalate ((l :: rest).map Step.describeLevel)).toList =
      (Step.describeLevel l).toList ++ furtherLevels rest := by
  rw [String.toList_intercalate]
  induction rest generalizing l with
  | nil => simp [furtherLevels]
  | cons m rest ih =>
    have behind := ih m
    simp only [List.map_cons] at behind ⊢
    rw [List.intercalate_cons_cons, behind]
    simp [furtherLevels]

/-- What stands behind a level is no blank. -/
theorem head?_furtherLevels (levels : List OrderLevel) (r : List Char) :
    (furtherLevels levels ++ '\n' :: r).head? ≠ some ' ' := by
  cases levels with
  | nil => simp [furtherLevels]
  | cons l rest => simp [furtherLevels]

theorem furtherLevels_append_inj {ls ms : List OrderLevel} (solid : ∀ l ∈ ls, Text.Solid l.key.toList)
    (solid' : ∀ m ∈ ms, Text.Solid m.key.toList)
    (same : furtherLevels ls ++ '\n' :: r = furtherLevels ms ++ '\n' :: s) : ls = ms ∧ r = s := by
  induction ls generalizing ms with
  | nil =>
    cases ms with
    | nil => exact ⟨rfl, List.tail_eq_of_cons_eq same⟩
    | cons m ms => simp [furtherLevels] at same
  | cons l ls ih =>
    cases ms with
    | nil => simp [furtherLevels] at same
    | cons m ms =>
      rw [furtherLevels_cons, furtherLevels_cons] at same
      obtain ⟨levels, same⟩ := describeLevel_append_inj (solid l List.mem_cons_self)
        (solid' m List.mem_cons_self) (head?_furtherLevels _ _) (head?_furtherLevels _ _)
        (List.append_cancel_left same)
      obtain ⟨rest, same⟩ := ih (fun l member => solid l (List.mem_cons_of_mem _ member))
        (fun m member => solid' m (List.mem_cons_of_mem _ member)) same
      exact ⟨by rw [levels, rest], same⟩

/-- Levels end where the line ends. -/
theorem levels_append_inj {ls ms : List OrderLevel} (solid : ∀ l ∈ ls, Text.Solid l.key.toList)
    (solid' : ∀ m ∈ ms, Text.Solid m.key.toList)
    (same : (", then ".intercalate (ls.map Step.describeLevel)).toList ++ '\n' :: r =
      (", then ".intercalate (ms.map Step.describeLevel)).toList ++ '\n' :: s) : ls = ms ∧ r = s := by
  cases ls with
  | nil =>
    cases ms with
    | nil => exact ⟨rfl, List.tail_eq_of_cons_eq same⟩
    | cons m ms =>
      rw [toList_intercalate_levels, List.append_assoc] at same
      exact absurd same.symm (describeLevel_append_ne (solid' m List.mem_cons_self) _ r)
  | cons l ls =>
    cases ms with
    | nil =>
      rw [toList_intercalate_levels, List.append_assoc] at same
      exact absurd same (describeLevel_append_ne (solid l List.mem_cons_self) _ s)
    | cons m ms =>
      rw [toList_intercalate_levels, toList_intercalate_levels, List.append_assoc, List.append_assoc] at same
      obtain ⟨first, same⟩ := describeLevel_append_inj (solid l List.mem_cons_self)
        (solid' m List.mem_cons_self) (head?_furtherLevels _ _) (head?_furtherLevels _ _) same
      obtain ⟨further, rest⟩ := furtherLevels_append_inj (fun l member => solid l (List.mem_cons_of_mem _ member))
        (fun m member => solid' m (List.mem_cons_of_mem _ member)) same
      exact ⟨by rw [first, further], rest⟩

theorem JoinSpec.toList_describe (a : JoinSpec) (r : List Char) :
    a.describe.toList ++ r = a.inner.toList ++ (" on ".toList ++ (a.outerKey.toList ++ (" = ".toList ++
      (a.innerKey.toList ++ (" into ".toList ++ (a.into.toList ++ r)))))) := by
  simp [JoinSpec.describe]

theorem JoinSpec.describe_append_inj {a b : JoinSpec} (solid : ∀ name ∈ a.names, Text.Solid name.toList)
    (solid' : ∀ name ∈ b.names, Text.Solid name.toList) (parted : Text.Parted r) (parted' : Text.Parted s)
    (same : a.describe.toList ++ r = b.describe.toList ++ s) :
    a.told = b.told ∧ r = s := by
  rw [JoinSpec.toList_describe, JoinSpec.toList_describe] at same
  have spaced (word rest : List Char) : Text.Parted ((' ' :: word) ++ rest) := Text.parted_cons rfl _
  obtain ⟨inner, same⟩ := (solid a.inner (by simp [names])).append_inj (solid' b.inner (by simp [names]))
    (spaced _ _) (spaced _ _) same
  obtain ⟨outerKey, same⟩ := (solid a.outerKey (by simp [names])).append_inj (solid' b.outerKey (by simp [names]))
    (spaced _ _) (spaced _ _) (List.append_cancel_left same)
  obtain ⟨innerKey, same⟩ := (solid a.innerKey (by simp [names])).append_inj (solid' b.innerKey (by simp [names]))
    (spaced _ _) (spaced _ _) (List.append_cancel_left same)
  obtain ⟨into, rest⟩ := (solid a.into (by simp [names])).append_inj (solid' b.into (by simp [names]))
    parted parted' (List.append_cancel_left same)
  simp only [String.toList_inj] at inner outerKey innerKey into
  rw [told, told, JoinSpec.mk.injEq]
  exact ⟨⟨inner, outerKey, innerKey, into, rfl⟩, rest⟩

/-- What a group step selects, as it is written behind the step's key. -/
def selectionText : Option String → String
  | some e => " select " ++ e
  | none => ""

theorem Step.toList_describe_group (key : String) (element : Option String) (ignoreCase : Bool) (r : List Char) :
    (Step.group key element ignoreCase).describe.toList ++ r = "group by ".toList ++ (key.toList ++
      ((selectionText element).toList ++ ((Step.caseMark ignoreCase).toList ++ r))) := by
  cases element <;> simp [Step.describe, selectionText]

theorem parted_selectionText (element : Option String) (parted : Text.Parted r) :
    Text.Parted ((selectionText element).toList ++ r) := by
  cases element with
  | none => simpa [selectionText] using parted
  | some e =>
    rw [selectionText, String.toList_append]
    exact Text.parted_cons rfl _

/-- A selection is told from a case mark by what follows the blank. -/
theorem selectionText_append_inj {e f : Option String} {x y : Bool} (solid : ∀ name ∈ e, Text.Solid name.toList)
    (solid' : ∀ name ∈ f, Text.Solid name.toList)
    (same : (selectionText e).toList ++ ((Step.caseMark x).toList ++ '\n' :: r) =
      (selectionText f).toList ++ ((Step.caseMark y).toList ++ '\n' :: s)) : e = f ∧ x = y ∧ r = s := by
  have parted (x : Bool) (r : List Char) : Text.Parted ((Step.caseMark x).toList ++ '\n' :: r) :=
    parted_caseMark x (Text.parted_cons rfl r)
  have marks {x y : Bool} (same : (Step.caseMark x).toList ++ '\n' :: r = (Step.caseMark y).toList ++ '\n' :: s) :
      x = y ∧ r = s :=
    (caseMark_append_inj (by simp) (by simp) same).imp_right List.tail_eq_of_cons_eq
  cases e with
  | none =>
    cases f with
    | none => exact ⟨rfl, marks (List.append_cancel_left same)⟩
    | some f => cases x <;> simp [selectionText, Step.caseMark] at same
  | some e =>
    cases f with
    | none => cases y <;> simp [selectionText, Step.caseMark] at same
    | some f =>
      obtain ⟨elements, same⟩ := (solid e rfl).append_inj (solid' f rfl) (parted x r) (parted y s)
        (opening_append_cancel " select " same)
      exact ⟨congrArg some (String.toList_inj.1 elements), marks same⟩

/-- **A line tells its step**, and where it ends. -/
theorem Step.describe_append_inj {a b : Step} (solid : ∀ name ∈ a.names, Text.Solid name.toList)
    (solid' : ∀ name ∈ b.names, Text.Solid name.toList)
    (same : a.describe.toList ++ '\n' :: r = b.describe.toList ++ '\n' :: s) : a.told = b.told ∧ r = s := by
  have parted (r : List Char) : Text.Parted ('\n' :: r) := Text.parted_cons rfl r
  cases a with
  | group key element ignoreCase =>
    cases b with
    | group key' element' ignoreCase' =>
      rw [Step.toList_describe_group, Step.toList_describe_group] at same
      obtain ⟨keys, same⟩ := (solid key List.mem_cons_self).append_inj (solid' key' List.mem_cons_self)
        (parted_selectionText _ (parted_caseMark _ (parted r)))
        (parted_selectionText _ (parted_caseMark _ (parted s))) (List.append_cancel_left same)
      obtain ⟨elements, marks, rest⟩ := selectionText_append_inj
        (fun name member => solid name (List.mem_cons_of_mem _ (Option.mem_toList.2 member)))
        (fun name member => solid' name (List.mem_cons_of_mem _ (Option.mem_toList.2 member))) same
      exact ⟨by rw [String.toList_inj.1 keys, elements, marks], rest⟩
    | _ => simp [Step.describe] at same
  | order levels =>
    cases b with
    | order levels' =>
      obtain ⟨levels, rest⟩ := levels_append_inj (fun l member => solid l.key (List.mem_map_of_mem member))
        (fun l member => solid' l.key (List.mem_map_of_mem member)) (opening_append_cancel "order by " same)
      exact ⟨congrArg Step.order levels, rest⟩
    | _ => simp [Step.describe] at same
  | join j =>
    cases b with
    | join j' =>
      obtain ⟨joins, rest⟩ := JoinSpec.describe_append_inj solid solid' (parted r) (parted s)
        (opening_append_cancel "join " same)
      exact ⟨congrArg Step.join joins, List.tail_eq_of_cons_eq rest⟩
    | _ => simp [Step.describe] at same
  | groupJoin j =>
    cases b with
    | groupJoin j' =>
      obtain ⟨joins, rest⟩ := JoinSpec.describe_append_inj solid solid' (parted r) (parted s)
        (opening_append_cancel "group_join " same)
      exact ⟨congrArg Step.groupJoin joins, List.tail_eq_of_cons_eq rest⟩
    | _ => simp [Step.describe] at same

end Parts

/-! ## Whole explanations -/

section Explanations

variable {q q' : Query}

/-- A step as told has the step's own line. -/
theorem Step.describe_told (step : Step) : step.told.describe = step.describe := by
  cases step <;> rfl

theorem explainSteps_told (number : Nat) (steps : List Step) :
    explainSteps number (steps.map Step.told) = explainSteps number steps := by
  induction steps generalizing number with
  | nil => rfl
  | cons step rest ih => rw [List.map_cons, explainSteps, explainSteps, ih, Step.describe_told]

theorem toList_explainSteps (number : Nat) (step : Step) (rest : List Step) :
    (explainSteps number (step :: rest)).toList = (toString number ++ ". ").toList ++
      (step.describe.toList ++ '\n' :: (explainSteps (number + 1) rest).toList) := by
  simp [explainSteps]

theorem told_of_explainSteps {number : Nat} {steps steps' : List Step}
    (solid : ∀ step ∈ steps, ∀ name ∈ step.names, Text.Solid name.toList)
    (solid' : ∀ step ∈ steps', ∀ name ∈ step.names, Text.Solid name.toList)
    (same : (explainSteps number steps).toList = (explainSteps number steps').toList) :
    steps.map Step.told = steps'.map Step.told := by
  -- the lines are taken off one by one; both sides count them alike
  induction steps generalizing number steps' with
  | nil =>
    cases steps' with
    | nil => rfl
    | cons step' rest' => simp [explainSteps] at same
  | cons step rest ih =>
    cases steps' with
    | nil => simp [explainSteps] at same
    | cons step' rest' =>
      rw [toList_explainSteps, toList_explainSteps] at same
      obtain ⟨line, same⟩ := Step.describe_append_inj (solid step List.mem_cons_self)
        (solid' step' List.mem_cons_self) (List.append_cancel_left same)
      rw [List.map_cons, List.map_cons, line, ih (fun s member => solid s (List.mem_cons_of_mem _ member))
        (fun s member => solid' s (List.mem_cons_of_mem _ member)) same]

/-- **An explanation tells the steps** up to the case settings of joins, and nothing else. -/
theorem explain_eq_iff (solid : q.Solid) (solid' : q'.Solid) :
    q.explain = q'.explain ↔ q.steps.map Step.told = q'.steps.map Step.told := by
  constructor
  · intro same
    exact told_of_explainSteps solid solid' (congrArg String.toList same)
  · intro told
    rw [explain, explain, ← explainSteps_told, told, explainSteps_told]

theorem JoinSpec.eq_of_told {a b : JoinSpec} (same : a.told = b.told) (marks : a.ignoreCase = b.ignoreCase) :
    a = b := by
  cases a
  cases b
  simp_all [told]

/-- Two steps told alike are joins, or they are the same. -/
theorem Step.told_cases {a b : Step} (told : a.told = b.told) :
    (∃ x y, a.joinCase? = some x ∧ b.joinCase? = some y ∧ (x = y → a = b)) ∨ a.joinCase? = none ∧ a = b := by
  cases a with
  | join j =>
    cases b with
    | join j' =>
      have joins := JoinSpec.eq_of_told (Step.join.inj told)
      exact Or.inl ⟨j.ignoreCase, j'.ignoreCase, rfl, rfl, fun marks => congrArg Step.join (joins marks)⟩
    | _ => cases told
  | groupJoin j =>
    cases b with
    | groupJoin j' =>
      have joins := JoinSpec.eq_of_told (Step.groupJoin.inj told)
      exact Or.inl ⟨j.ignoreCase, j'.ignoreCase, rfl, rfl, fun marks => congrArg Step.groupJoin (joins marks)⟩
    | _ => cases told
  | group key element ignoreCase =>
    cases b with
    | group => exact Or.inr ⟨rfl, told⟩
    | _ => cases told
  | order levels =>
    cases b with
    | order => exact Or.inr ⟨rfl, told⟩
    | _ => cases told

theorem steps_eq_of_told {steps steps' : List Step} (told : steps.map Step.told = steps'.map Step.told)
    (marks : steps.filterMap Step.joinCase? = steps'.filterMap Step.joinCase?) : steps = steps' := by
  induction steps generalizing steps' with
  | nil => exact (List.map_eq_nil_iff.1 told.symm).symm
  | cons step rest ih =>
    cases steps' with
    | nil => cases told
    | cons step' rest' =>
      obtain ⟨first, further⟩ := List.cons.inj told
      rcases Step.told_cases first with ⟨x, y, mark, mark', same⟩ | ⟨plain, rfl⟩
      · rw [List.filterMap_cons_some mark, List.filterMap_cons_some mark'] at marks
        obtain ⟨here, behind⟩ := List.cons.inj marks
        rw [same here, ih further behind]
      · rw [List.filterMap_cons_none plain, List.filterMap_cons_none plain] at marks
        rw [ih further marks]

/-- A run of a valid query depends on its steps only. -/
theorem run_eq_of_steps (valid : q.validate = .ok ()) (valid' : q'.validate = .ok ()) (steps : q.steps = q'.steps)
    (e : Executor) (input : List Json) : e.run q input = e.run q' input := by
  rw [Executor.run, Executor.run, valid, valid', datasets, datasets, steps]

/-- **What an explanation tells.** Two valid queries whose names have no blanks and whose explanations
are the same have the same steps up to the case settings of their joins. If these are the same too,
every executor gives the same for both on every input. -/
theorem explain_tells (solid : q.Solid) (solid' : q'.Solid) (valid : q.validate = .ok ())
    (valid' : q'.validate = .ok ()) (same : q.explain = q'.explain) :
    q.steps.map Step.told = q'.steps.map Step.told ∧
      (q.joinCases = q'.joinCases → ∀ (e : Executor) (input : List Json), e.run q input = e.run q' input) := by
  have told := (explain_eq_iff solid solid').1 same
  exact ⟨told, fun marks => run_eq_of_steps valid valid' (steps_eq_of_told told marks)⟩

/-- Players with their teams, by the rank of the team. -/
def ranked (tuning : Option Tuning) : Query where
  tuning := tuning
  steps := [.join ⟨"teams", "team", "name", "match", true⟩, .order [⟨"match.rank", true, false⟩, ⟨"name", false, true⟩],
    .group "team" (some "name") true]

/-- The sizes that a query sets are not explained and do not show in a run. -/
theorem explain_tells_untuned :
    ((ranked none).Solid ∧ (ranked (some ⟨some 3, none⟩)).Solid) ∧
      ((ranked none).validate = .ok () ∧ (ranked (some ⟨some 3, none⟩)).validate = .ok ()) ∧
      (ranked none).explain = (ranked (some ⟨some 3, none⟩)).explain ∧
      (ranked none).joinCases = (ranked (some ⟨some 3, none⟩)).joinCases ∧
      ∀ (e : Executor) (input : List Json),
        e.run (ranked none) input = e.run (ranked (some ⟨some 3, none⟩)) input := by
  have solid : (ranked none).Solid := by decide
  have solid' : (ranked (some ⟨some 3, none⟩)).Solid := by decide
  have valid : (ranked none).validate = .ok () := by rfl
  have valid' : (ranked (some ⟨some 3, none⟩)).validate = .ok () := by rfl
  exact ⟨⟨solid, solid'⟩, ⟨valid, valid'⟩, rfl, rfl, (explain_tells solid solid' valid valid' rfl).2 rfl⟩

/-- A join of players with their teams. -/
def teamed (ignoreCase : Bool) : Query := ⟨none, [.join ⟨"teams", "team", "name", "match", ignoreCase⟩]⟩

/-- One team, written with a capital. -/
def redTeam : Executor := ⟨Config.default, [("teams", [.object [("name", .string "Red")]])]⟩

/-- The line of a join does not tell whether capitals count, and the records that it gives do. -/
theorem join_case_untold :
    ((teamed false).Solid ∧ (teamed true).Solid) ∧
      ((teamed false).validate = .ok () ∧ (teamed true).validate = .ok ()) ∧ redTeam.config.validate = .ok () ∧
      (teamed false).explain = (teamed true).explain ∧
      redTeam.run (teamed false) [.object [("team", .string "red")]] = .ok [] ∧
      redTeam.run (teamed true) [.object [("team", .string "red")]] =
        .ok [.object [("match", .object [("name", .string "Red")]), ("team", .string "red")]] := by
  refine ⟨⟨by decide, by decide⟩, ⟨by rfl, by rfl⟩, by rfl, by rfl, by rfl, by rfl⟩

end Explanations

end Collate.Query
