import Collate.Proofs.Join.Emission
import Collate.Proofs.Join.Index
import Collate.Proofs.Json.Order
import Collate.Proofs.Sort.Emission
import Collate.Query.Executor

/-!
# Queries on plain lists

What a step gives can be said without a configuration: a group step lists the groups of a plain
list, a join looks its matches up in one, and an order step sorts. A run of a query gives what its
steps give on plain lists, one after the other, or it stops at a step that files more records than
a lookup can count buckets for.
-/

set_option autoImplicit false

namespace Collate

/-- The slots that a buffer takes do not show in the order of its elements. -/
theorem Sort.Ordered.toList_tuned {α : Type} (o : Sort.Ordered α) (config : Config) :
    (o.tuned config).toList = o.toList := by
  have execution : (o.tuned config).execution = o.execution := by
    unfold execution Execution.ofBuffer Buffer.size tuned
    rw [Buffer.items_ofSource, Buffer.items_ofSource]
  rw [toList, toList, enumerate, enumerate, execution]

namespace Query

/-- The records under the values at a path, each as what the step keeps of it, in plain groups. -/
def plainGroups (ignoreCase : Bool) (key : KeyPath) (element : Option KeyPath) (records : List Json) :
    List (Group Json Json) :=
  Listing.pushAll (Json.equality ignoreCase) [] (records.map fun r => (key.valueOrNull r, select element r))

/-- The inner records that a record matches, found in plain groups. -/
def plainMatches (ignoreCase : Bool) (outerKey innerKey : KeyPath) (inner : List Json) (record : Json) :
    List Json :=
  match outerKey.lookup record with
  | some key =>
      (Listing.get (Json.equality ignoreCase)
        (Listing.pushAll (Json.equality ignoreCase) [] (Lookup.keyed innerKey.lookup inner)) key).toList
  | none => []

/-- One record for each plain group. -/
def plainGroup (key : String) (element : Option String) (ignoreCase : Bool) (records : List Json) :
    Except QueryError (List Json) := do
  let key ← path key
  let element ← path? element
  pure ((plainGroups ignoreCase key element records).map groupRecord)

/-- The records with their matches, each given as a list of records. -/
def plainJoin (dataset : String → Except QueryError (List Json)) (name : String) (s : JoinSpec)
    (give : Json → List Json → List Json) (records : List Json) : Except QueryError (List Json) := do
  requireObjects name records
  let outerKey ← path s.outerKey
  let innerKey ← path s.innerKey
  let inner ← dataset s.inner
  pure (records.flatMap fun o => give o (plainMatches s.ignoreCase outerKey innerKey inner o))

/-- What a step gives on plain lists. -/
def Step.plain (dataset : String → Except QueryError (List Json)) :
    Step → List Json → Except QueryError (List Json)
  | .group key element ignoreCase, records => plainGroup key element ignoreCase records
  | .order levels, records => runOrder Config.default levels records
  | .join s, records => plainJoin dataset "join" s (fun o is => is.map (attach o s.into)) records
  | .groupJoin s, records =>
      plainJoin dataset "group_join" s (fun o is => [attach o s.into (.array is)]) records

/-- What steps give on plain lists, one after the other. -/
def plainSteps (dataset : String → Except QueryError (List Json)) :
    List Step → List Json → Except QueryError (List Json)
  | [], records => .ok records
  | step :: rest, records =>
      match step.plain dataset records with
      | .error err => .error err
      | .ok records => plainSteps dataset rest records

/-! ## Excess -/

/-- The records that a step puts into a lookup: a group step all that it is given, a join those of
its dataset. -/
def Step.filed (e : Executor) : Step → List Json → List Json
  | .group .., records => records
  | .order _, _ => []
  | .join s, _ => (e.dataset s.inner).toOption.getD []
  | .groupJoin s, _ => (e.dataset s.inner).toOption.getD []

/-- One of the steps is given records of which it files too many. -/
def Outgrown (e : Executor) (steps : List Step) (records : List Json) (n : Nat) : Prop :=
  ∃ before step after received, steps = before ++ step :: after ∧
    e.runSteps before records = .ok received ∧
    Lookup.Excess e.config (step.filed e received).length n

theorem runOrder_config (c c' : Config) (levels : List OrderLevel) (records : List Json) :
    runOrder c levels records = runOrder c' levels records := by
  unfold runOrder
  cases sortChain levels with
  | error err => rfl
  | ok chain =>
    dsimp only
    cases Sort.Ordered.ofLevels (Source.ofList records true) chain with
    | error err => rfl
    | ok ordered =>
      change Except.ok (ordered.tuned c).toList = Except.ok (ordered.tuned c').toList
      rw [Sort.Ordered.toList_tuned, Sort.Ordered.toList_tuned]

/-- The levels of a chain compare the values at paths. -/
theorem exists_of_mem_sortChain {levels : List OrderLevel} {chain : List (Sort.Level Json)}
    (made : sortChain levels = .ok chain) : ∀ level ∈ chain, ∃ p l, level = sortLevel p l := by
  induction levels generalizing chain with
  | nil =>
    cases made
    nofun
  | cons l rest ih =>
    rw [sortChain] at made
    split at made
    · cases made
    · next p parsed =>
      split at made
      · cases made
      · next others behind =>
        cases made
        intro level member
        rcases List.mem_cons.1 member with rfl | later
        · exact ⟨p, l, rfl⟩
        · exact ih behind level later

/-- An order step that gives something rearranges its records. -/
theorem perm_of_runOrder {config : Config} {levels : List OrderLevel} {records out : List Json}
    (sorted : runOrder config levels records = .ok out) : out.Perm records := by
  rw [runOrder] at sorted
  split at sorted
  · cases sorted
  · next chain made =>
    cases chain with
    | nil => cases sorted
    | cons level chain =>
      cases sorted
      rw [Sort.Ordered.toList_tuned]
      refine Sort.Ordered.toList_perm (Sort.Ordered.rank_self ?_)
      intro level member r _
      obtain ⟨p, l, rfl⟩ := exists_of_mem_sortChain made level member
      exact Json.order_self _ _

/-! ## Datasets -/

/-- A dataset of this name has been added. -/
def Executor.registered (e : Executor) (name : String) : Bool := e.datasets.any fun d => d.1 == name

theorem exists_dataset {e : Executor} {name : String} (known : e.registered name = true) :
    ∃ records, e.dataset name = .ok records := by
  unfold Executor.dataset
  cases found : e.datasets.find? fun d => d.1 == name with
  | some d => exact ⟨d.2, rfl⟩
  | none =>
    obtain ⟨d, member, named⟩ := List.any_eq_true.1 known
    exact absurd named (List.find?_eq_none.1 found d member)

theorem dataset_eq_error {e : Executor} {name : String} (unknown : e.registered name = false) :
    e.dataset name = .error (.unknownDataset name) := by
  have none : (e.datasets.find? fun d => d.1 == name) = none :=
    List.find?_eq_none.2 fun d member => List.any_eq_false.1 unknown d member
  rw [Executor.dataset, none]

/-- The first name without a dataset is refused. -/
theorem requireDatasets_eq (e : Executor) (names : List String) :
    e.requireDatasets names =
      match names.find? fun name => !e.registered name with
      | some name => .error (.unknownDataset name)
      | none => .ok () := by
  induction names with
  | nil => rfl
  | cons name rest ih =>
    rw [Executor.requireDatasets, List.find?_cons]
    cases known : e.registered name with
    | true =>
      obtain ⟨records, dataset⟩ := exists_dataset known
      rw [dataset, ih]
      rfl
    | false =>
      rw [dataset_eq_error known]
      rfl

/-! ## Steps -/

/-- What both joins do: the checks, the index, and what is read off it. -/
def Executor.joined (e : Executor) (name : String) (s : JoinSpec)
    (finish : Lookup Json Json → KeyPath → List Json) (records : List Json) :
    Except QueryError (List Json) := do
  requireObjects name records
  let outerKey ← path s.outerKey
  let innerKey ← path s.innerKey
  let lookup ← e.indexed s innerKey
  pure (finish lookup outerKey)

theorem Executor.runJoin_eq (e : Executor) (s : JoinSpec) (records : List Json) :
    e.runJoin s records = e.joined "join" s (fun l outerKey =>
      (Join.start (.ofList records true) l).toList outerKey.lookup fun o i => attach o s.into i) records := rfl

theorem Executor.runGroupJoin_eq (e : Executor) (s : JoinSpec) (records : List Json) :
    e.runGroupJoin s records = e.joined "group_join" s (fun l outerKey =>
      (GroupJoin.start (.ofList records true) l).toList outerKey.lookup fun o is =>
        attach o s.into (.array is.toList)) records := rfl

section Steps

variable {e : Executor} (usable : e.config.validate = .ok ())
  (word : e.config.initialBuckets ≤ Text.wordMax)
include usable word

/-- A group step gives what plain groups give, unless it has too many records. -/
theorem runGroup_cases (key : String) (element : Option String) (ignoreCase : Bool)
    (records : List Json) :
    runGroup e.config key element ignoreCase records = plainGroup key element ignoreCase records ∨
      ∃ n, Lookup.Excess e.config records.length n ∧
        runGroup e.config key element ignoreCase records = .error (.core (.capacityOverflow n)) := by
  unfold runGroup plainGroup
  cases path key with
  | error err => exact Or.inl rfl
  | ok key =>
    cases path? element with
    | error err => exact Or.inl rfl
    | ok element =>
      change (lift (Lookup.build _ _ _ _ _) >>= _) = _ ∨ ∃ n, _ ∧ (lift (Lookup.build _ _ _ _ _) >>= _) = _
      rcases Lookup.build_cases (Json.equality ignoreCase) usable word records key.valueOrNull
        (select element) with ⟨l, built, mirrors⟩ | ⟨n, excess, failed⟩
      · have gathered : l.groups.toList = plainGroups ignoreCase key element records := mirrors.groups
        left
        rw [built]
        change Except.ok (l.groups.toList.map groupRecord) = _
        rw [gathered]
        rfl
      · exact Or.inr ⟨n, excess, by rw [failed]; rfl⟩

/-- The index of a join finds the matches that plain groups have, unless its dataset is unknown or
has too many records. -/
theorem indexed_cases (s : JoinSpec) (innerKey : KeyPath) :
    (∃ err, e.dataset s.inner = .error err ∧ e.indexed s innerKey = .error err) ∨
      (∃ inner l, e.dataset s.inner = .ok inner ∧ e.indexed s innerKey = .ok l ∧
        ∀ outerKey o, (GroupJoin.matchesOf l (KeyPath.lookup outerKey o)).toList =
          plainMatches s.ignoreCase outerKey innerKey inner o) ∨
      ∃ inner n, e.dataset s.inner = .ok inner ∧ Lookup.Excess e.config inner.length n ∧
        e.indexed s innerKey = .error (.core (.capacityOverflow n)) := by
  unfold Executor.indexed
  cases e.dataset s.inner with
  | error err => exact Or.inl ⟨err, rfl, rfl⟩
  | ok inner =>
    change _ ∨ (∃ inner l, _ ∧ lift (Lookup.index _ _ _ _) = _ ∧ _) ∨
      ∃ inner n, _ ∧ _ ∧ lift (Lookup.index _ _ _ _) = _
    rcases Lookup.index_cases (Json.equality s.ignoreCase) usable word inner innerKey.lookup with
      ⟨l, indexed, mirrors⟩ | ⟨n, excess, failed⟩
    · refine Or.inr (Or.inl ⟨inner, l, rfl, by rw [indexed]; rfl, ?_⟩)
      intro outerKey o
      unfold plainMatches
      cases outerKey.lookup o with
      | none => rfl
      | some key => rw [GroupJoin.matchesOf, mirrors.get]
    · exact Or.inr (Or.inr ⟨inner, n, rfl, excess, by rw [failed]; rfl⟩)

/-- A join step gives what the matches in plain groups give, unless its dataset is too large. -/
theorem joined_cases (name : String) (s : JoinSpec) (give : Json → List Json → List Json)
    (finish : Lookup Json Json → KeyPath → List Json) (records : List Json)
    (finishes : ∀ l outerKey, finish l outerKey =
      records.flatMap fun o => give o (GroupJoin.matchesOf l (KeyPath.lookup outerKey o)).toList) :
    e.joined name s finish records = plainJoin e.dataset name s give records ∨
      ∃ n, Lookup.Excess e.config ((e.dataset s.inner).toOption.getD []).length n ∧
        e.joined name s finish records = .error (.core (.capacityOverflow n)) := by
  -- Both sides make the same checks in the same order, so a check that fails is reported alike.
  unfold Executor.joined plainJoin
  cases requireObjects name records with
  | error err => exact Or.inl rfl
  | ok =>
    cases path s.outerKey with
    | error err => exact Or.inl rfl
    | ok outerKey =>
      cases path s.innerKey with
      | error err => exact Or.inl rfl
      | ok innerKey =>
        change (e.indexed s innerKey >>= _) = (e.dataset s.inner >>= _) ∨ ∃ n, _ ∧ (e.indexed s innerKey >>= _) = _
        rcases indexed_cases usable word s innerKey with
          ⟨err, unknown, failed⟩ | ⟨inner, l, known, indexed, finds⟩ | ⟨inner, n, known, excess, failed⟩
        · rw [unknown, failed]
          exact Or.inl rfl
        · left
          rw [known, indexed]
          change Except.ok (finish l outerKey) = Except.ok _
          simp only [finishes, finds]
        · rw [known, failed]
          exact Or.inr ⟨n, excess, rfl⟩

/-- **A step gives what it gives on plain lists**, unless it files too many records. -/
theorem runStep_cases (step : Step) (records : List Json) :
    e.runStep step records = step.plain e.dataset records ∨
      ∃ n, Lookup.Excess e.config (step.filed e records).length n ∧
        e.runStep step records = .error (.core (.capacityOverflow n)) := by
  cases step with
  | group key element ignoreCase => exact runGroup_cases usable word key element ignoreCase records
  | order levels => exact Or.inl (runOrder_config _ _ levels records)
  | join s =>
    rw [Executor.runStep, Executor.runJoin_eq]
    refine joined_cases usable word "join" s (fun o is => is.map (attach o s.into)) _ records ?_
    intro l outerKey
    rw [Join.toList_start]
    rfl
  | groupJoin s =>
    rw [Executor.runStep, Executor.runGroupJoin_eq]
    refine joined_cases usable word "group_join" s (fun o is => [attach o s.into (.array is)]) _ records ?_
    intro l outerKey
    rw [GroupJoin.toList_start, List.map_eq_flatMap]
    rfl

/-- **Steps give what they give on plain lists**, unless one of them files too many records. -/
theorem runSteps_cases (steps : List Step) (records : List Json) :
    e.runSteps steps records = plainSteps e.dataset steps records ∨
      ∃ n, Outgrown e steps records n ∧ e.runSteps steps records = .error (.core (.capacityOverflow n)) := by
  induction steps generalizing records with
  | nil => exact Or.inl rfl
  | cons step rest ih =>
    rcases runStep_cases usable word step records with ran | ⟨n, excess, failed⟩
    · rw [Executor.runSteps, plainSteps, ran]
      cases given : step.plain e.dataset records with
      | error err => exact Or.inl rfl
      | ok received =>
        -- A later step that outgrows its lookup is reached through this one.
        rcases ih received with same | ⟨n, ⟨before, last, after, reached, split, runs, excess⟩, failed⟩
        · exact Or.inl same
        · refine Or.inr ⟨n, ⟨step :: before, last, after, reached, ?_, ?_, excess⟩, failed⟩
          · rw [split, List.cons_append]
          · rw [Executor.runSteps, ran, given]
            exact runs
    · refine Or.inr ⟨n, ⟨[], step, rest, records, rfl, rfl, excess⟩, ?_⟩
      rw [Executor.runSteps, failed]

end Steps

/-! ## Runs -/

/-- A run stops because one of its steps files too many records. -/
def Overflows (e : Executor) (q : Query) (input : List Json) : Prop :=
  ∃ n, Outgrown e q.steps input n ∧ e.run q input = .error (.core (.capacityOverflow n))

/-- With a usable configuration, a run makes the checks that ask nothing of it and takes the steps. -/
theorem run_eq {e : Executor} (usable : e.config.validate = .ok ()) (q : Query) (input : List Json) :
    e.run q input =
      match q.validate, q.datasets.find? fun name => !e.registered name with
      | .error err, _ => .error err
      | .ok (), some name => .error (.unknownDataset name)
      | .ok (), none => e.runSteps q.steps input := by
  rw [Executor.run, usable, requireDatasets_eq]
  cases q.validate with
  | error err => rfl
  | ok => cases q.datasets.find? fun name => !e.registered name <;> rfl

end Query

end Collate
