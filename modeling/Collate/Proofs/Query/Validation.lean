import Collate.Proofs.Query.Plain
import Mathlib.Data.List.TakeWhile

/-!
# What validation leaves to fail

A query that passes its validation has key paths that can be read and order steps with levels, so
a run repeats these checks in vain. Order steps only rearrange the records, and every other step
gives objects. So the one step that can still refuse its records is the first that does more than
sort, and it refuses them when it is a join and not all of them are objects.
-/

set_option autoImplicit false

namespace Collate.Query

namespace Step

/-- The step only sorts. -/
def isOrder : Step → Bool
  | .order _ => true
  | _ => false

/-- The step reads a dataset, and works on objects only. -/
def joins (step : Step) : Bool := step.dataset?.isSome

end Step

/-- The order steps before every other step. -/
def sorting (q : Query) : List Step := q.steps.takeWhile Step.isOrder

/-- The first step that does more than sort. -/
def deciding? (q : Query) : Option Step := q.steps.find? fun step => !step.isOrder

theorem sorting_append (q : Query) : q.sorting ++ q.steps.dropWhile Step.isOrder = q.steps :=
  List.takeWhile_append_dropWhile

theorem deciding?_eq (q : Query) : q.deciding? = (q.steps.dropWhile Step.isOrder).head? :=
  List.find?_not_eq_head?_dropWhile Step.isOrder q.steps

/-- The first step that does more than sort is a join, and not all records are objects. -/
def MeetsNonObject (q : Query) (input : List Json) : Prop :=
  ∃ step, q.deciding? = some step ∧ step.joins = true ∧ ∃ r ∈ input, r.isObject = false

/-! ## Checks made twice -/

theorem path_eq_ok {source : String} {p : KeyPath} (parsed : KeyPath.parse source = .ok p) :
    path source = .ok p := by
  rw [path, parsed]

theorem exists_path {α : Type} {source : String} {next : KeyPath → Except Fault α} {a : α}
    (valid : (KeyPath.parse source >>= next) = .ok a) :
    ∃ p, path source = .ok p ∧ next p = .ok a := by
  cases parsed : KeyPath.parse source with
  | error fault =>
    rw [parsed] at valid
    cases valid
  | ok p =>
    rw [parsed] at valid
    exact ⟨p, path_eq_ok parsed, valid⟩

/-- The levels of a valid order step make a chain of as many levels. -/
theorem exists_sortChain {levels : List OrderLevel} (valid : levels.forM OrderLevel.validate = .ok ()) :
    ∃ chain, sortChain levels = .ok chain ∧ chain.length = levels.length := by
  induction levels with
  | nil => exact ⟨[], rfl, rfl⟩
  | cons l rest ih =>
    change (l.validate >>= fun _ => rest.forM OrderLevel.validate) = .ok () at valid
    cases first : l.validate with
    | error fault =>
      rw [first] at valid
      cases valid
    | ok =>
      rw [first] at valid
      obtain ⟨p, parsed, -⟩ := exists_path first
      obtain ⟨chain, made, length⟩ := ih valid
      exact ⟨sortLevel p l :: chain, by rw [sortChain, parsed, made], by simp [length]⟩

/-- **A valid order step rearranges its records.** -/
theorem exists_runOrder {levels : List OrderLevel} (valid : (Step.order levels).validate = .ok ())
    (config : Config) (records : List Json) :
    ∃ out, runOrder config levels records = .ok out ∧ out.Perm records := by
  cases levels with
  | nil => cases valid
  | cons l rest =>
    obtain ⟨chain, made, length⟩ := exists_sortChain valid
    cases chain with
    | nil => cases length
    | cons level chain =>
      cases sorted : runOrder config (l :: rest) records with
      | error err =>
        rw [runOrder, made] at sorted
        cases sorted
      | ok out => exact ⟨out, rfl, perm_of_runOrder sorted⟩

/-! ## Objects -/

theorem isObject_attach {record : Json} (object : record.isObject = true) (field : String) (value : Json) :
    (attach record field value).isObject = true := by
  cases record with
  | object fields => rfl
  | _ => cases object

/-- A valid group step gives an object for each group. -/
theorem exists_plainGroup {key : String} {element : Option String} {ignoreCase : Bool}
    (valid : (Step.group key element ignoreCase).validate = .ok ()) (records : List Json) :
    ∃ out, plainGroup key element ignoreCase records = .ok out ∧ ∀ r ∈ out, r.isObject = true := by
  obtain ⟨k, key, valid⟩ := exists_path valid
  have elements : ∃ el, path? element = .ok el := by
    cases element with
    | none => exact ⟨none, rfl⟩
    | some source =>
      obtain ⟨p, parsed, -⟩ := exists_path valid
      exact ⟨some p, by rw [path?, parsed]; rfl⟩
  obtain ⟨el, element⟩ := elements
  refine ⟨_, by rw [plainGroup, key, element]; rfl, ?_⟩
  intro r member
  obtain ⟨g, -, rfl⟩ := List.mem_map.1 member
  rfl

/-- A join refuses records of which some are no objects. -/
theorem requireObjects_eq_error {step : String} {records : List Json} {k : Nat}
    (first : records.findIdx? (fun r => !r.isObject) = some k) :
    requireObjects step records = .error (.invalid (.notObject step k)) := by
  rw [requireObjects, firstNonObject?, first]

theorem requireObjects_eq_ok {step : String} {records : List Json}
    (objects : ∀ r ∈ records, r.isObject = true) : requireObjects step records = .ok () := by
  have none : records.findIdx? (fun r => !r.isObject) = none :=
    List.findIdx?_eq_none_iff.2 fun r member => by rw [objects r member]; rfl
  rw [requireObjects, firstNonObject?, none]

/-- A valid join of objects gives what its matches make of them. -/
theorem exists_plainJoin {dataset : String → Except QueryError (List Json)} {name : String}
    {s : JoinSpec} (valid : s.validate name = .ok ()) {inner : List Json}
    (known : dataset s.inner = .ok inner) (give : Json → List Json → List Json)
    (gives : ∀ o is, o.isObject = true → ∀ r ∈ give o is, r.isObject = true) {records : List Json}
    (objects : ∀ r ∈ records, r.isObject = true) :
    ∃ out, plainJoin dataset name s give records = .ok out ∧ ∀ r ∈ out, r.isObject = true := by
  unfold JoinSpec.validate at valid
  split at valid
  · cases valid
  · split at valid
    · cases valid
    · obtain ⟨outerKey, outerParsed, valid⟩ := exists_path valid
      obtain ⟨innerKey, innerParsed, -⟩ := exists_path valid
      refine ⟨_, by rw [plainJoin, requireObjects_eq_ok objects, outerParsed, innerParsed, known]; rfl, ?_⟩
      intro r member
      obtain ⟨o, outerMember, given⟩ := List.mem_flatMap.1 member
      exact gives o _ (objects o outerMember) r given

/-- **A valid step that does more than sort gives objects**, unless it is a join and is given
something else. -/
theorem exists_plain_objects {dataset : String → Except QueryError (List Json)} {step : Step}
    (valid : step.validate = .ok ()) (other : step.isOrder = false)
    (known : ∀ name, step.dataset? = some name → ∃ inner, dataset name = .ok inner)
    {records : List Json} (fit : step.joins = true → ∀ r ∈ records, r.isObject = true) :
    ∃ out, step.plain dataset records = .ok out ∧ ∀ r ∈ out, r.isObject = true := by
  cases step with
  | group key element ignoreCase => exact exists_plainGroup valid records
  | order levels => cases other
  | join s =>
    obtain ⟨inner, known⟩ := known s.inner rfl
    refine exists_plainJoin valid known (fun o is => is.map (attach o s.into)) ?_ (fit rfl)
    intro o is object r member
    obtain ⟨i, -, rfl⟩ := List.mem_map.1 member
    exact isObject_attach object s.into i
  | groupJoin s =>
    obtain ⟨inner, known⟩ := known s.inner rfl
    refine exists_plainJoin valid known (fun o is => [attach o s.into (.array is)]) ?_ (fit rfl)
    intro o is object r member
    rw [List.mem_singleton.1 member]
    exact isObject_attach object s.into _

/-- Valid steps on objects come to an end: each of them gives objects again. -/
theorem exists_plainSteps {dataset : String → Except QueryError (List Json)} {steps : List Step}
    (valid : ∀ step ∈ steps, step.validate = .ok ())
    (known : ∀ step ∈ steps, ∀ name, step.dataset? = some name → ∃ inner, dataset name = .ok inner)
    {records : List Json} (objects : ∀ r ∈ records, r.isObject = true) :
    ∃ out, plainSteps dataset steps records = .ok out := by
  -- That the records are objects is what each step hands on to the next.
  induction steps generalizing records with
  | nil => exact ⟨records, rfl⟩
  | cons step rest ih =>
    have one : ∃ out, step.plain dataset records = .ok out ∧ ∀ r ∈ out, r.isObject = true := by
      cases kind : step.isOrder with
      | false =>
        exact exists_plain_objects (valid step List.mem_cons_self) kind (known step List.mem_cons_self)
          fun _ => objects
      | true =>
        cases step with
        | order levels =>
          obtain ⟨out, sorted, perm⟩ := exists_runOrder (valid _ List.mem_cons_self) Config.default records
          exact ⟨out, sorted, fun r member => objects r (perm.mem_iff.1 member)⟩
        | _ => cases kind
    obtain ⟨out, given, objects⟩ := one
    rw [plainSteps, given]
    exact ih (fun step member => valid step (List.mem_cons_of_mem _ member))
      (fun step member => known step (List.mem_cons_of_mem _ member)) objects

/-! ## Runs of steps -/

theorem runSteps_append (e : Executor) (before after : List Step) (records : List Json) :
    e.runSteps (before ++ after) records = (e.runSteps before records).bind (e.runSteps after) := by
  induction before generalizing records with
  | nil => rfl
  | cons step rest ih =>
    rw [List.cons_append, Executor.runSteps, Executor.runSteps]
    cases e.runStep step records with
    | error err => rfl
    | ok received => exact ih received

/-- The order steps in front rearrange the records. -/
theorem exists_runSteps_sorting (e : Executor) {steps : List Step}
    (valid : ∀ step ∈ steps, step.validate = .ok ()) (records : List Json) :
    ∃ received, e.runSteps (steps.takeWhile Step.isOrder) records = .ok received ∧
      received.Perm records := by
  induction steps generalizing records with
  | nil => exact ⟨records, rfl, List.Perm.refl _⟩
  | cons step rest ih =>
    cases step with
    | order levels =>
      obtain ⟨out, sorted, perm⟩ := exists_runOrder (valid _ List.mem_cons_self) e.config records
      obtain ⟨received, runs, rearranged⟩ :=
        ih (fun step member => valid step (List.mem_cons_of_mem _ member)) out
      refine ⟨received, ?_, rearranged.trans perm⟩
      rw [List.takeWhile_cons_of_pos rfl, Executor.runSteps, Executor.runStep, sorted]
      exact runs
    | _ => exact ⟨records, rfl, List.Perm.refl _⟩

/-- A join that is given something else than objects refuses it, whatever else may be wrong. -/
theorem runStep_refused (e : Executor) {step : Step} (joins : step.joins = true) {records : List Json}
    {k : Nat} (first : records.findIdx? (fun r => !r.isObject) = some k) :
    e.runStep step records = .error (.invalid (.notObject step.name k)) := by
  cases step with
  | join s =>
    rw [Executor.runStep, Executor.runJoin_eq, Executor.joined, requireObjects_eq_error first]
    rfl
  | groupJoin s =>
    rw [Executor.runStep, Executor.runGroupJoin_eq, Executor.joined, requireObjects_eq_error first]
    rfl
  | _ => cases joins

/-- What outgrows a lookup behind some steps outgrows it with them in front. -/
theorem Outgrown.behind {e : Executor} {before after : List Step} {records received : List Json} {n : Nat}
    (runs : e.runSteps before records = .ok received) (outgrown : Outgrown e after received n) :
    Outgrown e (before ++ after) records n := by
  obtain ⟨front, step, back, reached, split, more, excess⟩ := outgrown
  refine ⟨before ++ front, step, back, reached, by rw [split, List.append_assoc], ?_, excess⟩
  rw [runSteps_append, runs]
  exact more

/-- Steps that begin with one that does more than sort come to an end, unless it is a join of
something else than objects. -/
theorem exists_runSteps {e : Executor} (usable : e.config.validate = .ok ())
    (word : e.config.initialBuckets ≤ Text.wordMax) {step : Step} {rest : List Step}
    (valid : ∀ s ∈ step :: rest, s.validate = .ok ()) (other : step.isOrder = false)
    (known : ∀ s ∈ step :: rest, ∀ name, s.dataset? = some name → ∃ inner, e.dataset name = .ok inner)
    {records : List Json} (fit : step.joins = true → ∀ r ∈ records, r.isObject = true) :
    (∃ out, e.runSteps (step :: rest) records = .ok out) ∨
      ∃ n, Outgrown e (step :: rest) records n ∧
        e.runSteps (step :: rest) records = .error (.core (.capacityOverflow n)) := by
  rcases runSteps_cases usable word (step :: rest) records with plain | outgrown
  · obtain ⟨received, given, objects⟩ := exists_plain_objects (valid step List.mem_cons_self) other
      (known step List.mem_cons_self) fit
    obtain ⟨out, done⟩ := exists_plainSteps (fun s member => valid s (List.mem_cons_of_mem _ member))
      (fun s member => known s (List.mem_cons_of_mem _ member)) objects
    left
    refine ⟨out, ?_⟩
    rw [plain, plainSteps, given]
    exact done
  · exact Or.inr outgrown

theorem validate_of_validateSteps {number : Nat} {steps : List Step}
    (valid : validateSteps number steps = .ok ()) : ∀ step ∈ steps, step.validate = .ok () := by
  induction steps generalizing number with
  | nil => nofun
  | cons step rest ih =>
    rw [validateSteps] at valid
    intro s member
    cases first : step.validate with
    | error fault =>
      rw [first] at valid
      cases valid
    | ok =>
      rw [first] at valid
      rcases List.mem_cons.1 member with rfl | behind
      · exact first
      · exact ih valid s behind

/-- The steps of a valid query are valid. -/
theorem validate_steps {q : Query} (valid : q.validate = .ok ()) :
    ∀ step ∈ q.steps, step.validate = .ok () := by
  unfold validate at valid
  split at valid
  · cases valid
  · split at valid
    · cases valid
    · split at valid
      · cases valid
      · next steps => exact validate_of_validateSteps steps

/-- A run has nothing to refuse before its first step. -/
structure Executor.Accepts (e : Executor) (q : Query) : Prop where
  query : q.validate = .ok ()
  config : e.config.validate = .ok ()
  datasets : ∀ name ∈ q.datasets, e.registered name = true

theorem Executor.Accepts.run_eq {e : Executor} {q : Query} (accepts : e.Accepts q) (input : List Json) :
    e.run q input = e.runSteps q.steps input := by
  have none : (q.datasets.find? fun name => !e.registered name) = none :=
    List.find?_eq_none.2 fun name member => by simp [accepts.datasets name member]
  rw [Query.run_eq accepts.config, accepts.query, none]

section Accepted

variable {e : Executor} {q : Query} (accepts : e.Accepts q)
include accepts

theorem Executor.Accepts.exists_dataset {step : Step} (member : step ∈ q.steps) {name : String}
    (reads : step.dataset? = some name) : ∃ inner, e.dataset name = .ok inner :=
  Query.exists_dataset (accepts.datasets name (List.mem_filterMap.2 ⟨step, member, reads⟩))

/-- A run sorts first; what it gives is up to the steps from the first that does more. -/
theorem Executor.Accepts.exists_received (input : List Json) :
    ∃ received, e.runSteps q.sorting input = .ok received ∧ received.Perm input ∧
      e.run q input = e.runSteps (q.steps.dropWhile Step.isOrder) received := by
  obtain ⟨received, sorted, perm⟩ := exists_runSteps_sorting e (validate_steps accepts.query) input
  refine ⟨received, sorted, perm, ?_⟩
  rw [accepts.run_eq, ← q.sorting_append, runSteps_append, q.sorting_append, sorting, sorted]
  rfl

/-- A first join is refused when some record of the input is no object. -/
theorem Executor.Accepts.run_refused {input : List Json} (meets : q.MeetsNonObject input) :
    ∃ received step k, e.runSteps q.sorting input = .ok received ∧ received.Perm input ∧
      q.deciding? = some step ∧ received.findIdx? (fun r => !r.isObject) = some k ∧
      e.run q input = .error (.invalid (.notObject step.name k)) := by
  obtain ⟨received, sorted, perm, run⟩ := accepts.exists_received input
  obtain ⟨step, first, joins, r, member, other⟩ := meets
  -- Sorting loses no record, so one that is no object is still there.
  obtain ⟨k, place⟩ : ∃ k, received.findIdx? (fun r => !r.isObject) = some k := by
    apply Option.isSome_iff_exists.1
    rw [List.findIdx?_isSome]
    exact List.any_eq_true.2 ⟨r, perm.mem_iff.2 member, by rw [other]; rfl⟩
  refine ⟨received, step, k, sorted, perm, first, place, ?_⟩
  obtain ⟨rest, behind⟩ := List.head?_eq_some_iff.1 (q.deciding?_eq.symm.trans first)
  rw [run, behind, Executor.runSteps, runStep_refused e joins place]

/-- Nothing else is refused. -/
theorem Executor.Accepts.run_completes (word : e.config.initialBuckets ≤ Text.wordMax) {input : List Json}
    (apart : ¬ q.MeetsNonObject input) : (∃ out, e.run q input = .ok out) ∨ Overflows e q input := by
  obtain ⟨received, sorted, perm, run⟩ := accepts.exists_received input
  have split := q.sorting_append
  have first := q.deciding?_eq
  have members : ∀ s ∈ q.steps.dropWhile Step.isOrder, s ∈ q.steps :=
    fun s member => (List.dropWhile_sublist _).subset member
  cases behind : q.steps.dropWhile Step.isOrder with
  | nil => exact Or.inl ⟨received, by rw [run, behind]; rfl⟩
  | cons step rest =>
    rw [behind] at members first run split
    have other : step.isOrder = false := by simpa using List.find?_some first
    have fit : step.joins = true → ∀ r ∈ received, r.isObject = true := by
      intro joins r member
      by_contra odd
      exact apart ⟨step, first, joins, r, perm.mem_iff.1 member, by simpa using odd⟩
    rcases exists_runSteps accepts.config word
        (fun s member => validate_steps accepts.query s (members s member)) other
        (fun s member name => accepts.exists_dataset (members s member)) fit with
      ⟨out, done⟩ | ⟨n, outgrown, failed⟩
    · exact Or.inl ⟨out, run.trans done⟩
    · have whole := outgrown.behind sorted
      rw [split] at whole
      exact Or.inr ⟨n, whole, run.trans failed⟩

end Accepted

/-- **Validation is complete.** A run reports the first fault of the query, of the configuration
and of the datasets, in this order. When there is none, it fails exactly if the first step that
does more than sort is a join and some record of the input is no object, with the place of the
first such record among those that the step is given; no later step fails, unless it files more
records than a lookup can count buckets for. -/
theorem run_reports (e : Executor) (q : Query) (input : List Json)
    (word : e.config.initialBuckets ≤ Text.wordMax) :
    (∀ err, q.validate = .error err → e.run q input = .error err) ∧
      (q.validate = .ok () → ∀ err, e.config.validate = .error err →
        e.run q input = .error (.core err)) ∧
      (q.validate = .ok () → e.config.validate = .ok () → ∀ name,
        (q.datasets.find? fun name => !e.registered name) = some name →
        e.run q input = .error (.unknownDataset name)) ∧
      (e.Accepts q →
        (q.MeetsNonObject input → ∃ received step k,
          e.runSteps q.sorting input = .ok received ∧ received.Perm input ∧
          q.deciding? = some step ∧ received.findIdx? (fun r => !r.isObject) = some k ∧
          e.run q input = .error (.invalid (.notObject step.name k))) ∧
        (¬ q.MeetsNonObject input → (∃ out, e.run q input = .ok out) ∨ Overflows e q input)) := by
  refine ⟨?_, ?_, ?_, fun accepts => ⟨accepts.run_refused, accepts.run_completes word⟩⟩
  · intro err invalid
    rw [Executor.run, invalid]
  · intro valid err unusable
    rw [Executor.run, valid, unusable]
  · intro valid usable name missing
    rw [run_eq usable, valid, missing]

/-- Sort by a key, then join with the dataset `d`. -/
def sortedJoin : Query :=
  ⟨none, [.order [⟨"k", false, false⟩], .join ⟨"d", "k", "k", "match", false⟩]⟩

/-- Two objects, and a number behind them. -/
def oddInput : List Json :=
  [.object [("k", .number (.int 2))], .object [("k", .number (.int 1))], .number (.int 5)]

/-- The number has no key, so the join is given it first, and says so. -/
theorem run_reports_odd :
    7 ≤ Text.wordMax ∧ Executor.run ⟨Config.default, [("d", [])]⟩ sortedJoin oddInput =
      .error (.invalid (.notObject "join" 0)) := by
  refine ⟨by decide, ?_⟩
  have accepts : Executor.Accepts ⟨Config.default, [("d", [])]⟩ sortedJoin :=
    ⟨by rfl, by rfl, by decide⟩
  obtain ⟨received, step, k, sorted, -, first, place, failed⟩ :=
    ((run_reports ⟨Config.default, [("d", [])]⟩ sortedJoin oddInput (by decide)).2.2.2 accepts).1
      ⟨.join ⟨"d", "k", "k", "match", false⟩, rfl, rfl, .number (.int 5), by simp [oddInput], rfl⟩
  cases first
  have computed : (Executor.runSteps ⟨Config.default, [("d", [])]⟩ sortedJoin.sorting oddInput).toOption.map
      (fun records => records.findIdx? fun r => !r.isObject) = some (some 0) := by decide +kernel
  rw [sorted] at computed
  rw [failed]
  have : some k = some 0 := place.symm.trans (Option.some.inj computed)
  rw [Option.some.inj this]
  rfl

end Collate.Query
