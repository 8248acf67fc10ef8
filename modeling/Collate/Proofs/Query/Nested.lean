import Collate.Proofs.Join.Nested
import Collate.Proofs.Json.Equality
import Collate.Proofs.Query.Validation
import Collate.Proofs.Query.WellFormed

/-!
# Join steps are nested loops

A join step goes through its records and, for each of them, through the entries of its dataset, and
attaches those whose key is equal to the record's. A key that is missing or null matches nothing.
The index that finds the matches asks for an equality that is lawful on the keys, which that of JSON
values is where no two integers among them become one number of the 64-bit format.
-/

set_option autoImplicit false

namespace Collate.Query

/-- One object is another with a field set: the field has the value, in place of one of its name,
and every other field is kept. -/
def SetsField (field : String) (value record result : Json) : Prop :=
  ∃ fields fields', record = .object fields ∧ result = .object fields' ∧ Json.Increasing fields' ∧
    ∀ name, Json.fieldOf? name fields' = if name = field then some value else Json.fieldOf? name fields

theorem setsField_attach {record : Json} (object : record.isObject = true) (wf : record.WellFormed)
    (field : String) (value : Json) : SetsField field value record (attach record field value) := by
  cases record with
  | object fields =>
    have increasing := (Json.wellFormed_object_iff.1 wf).1
    exact ⟨fields, _, rfl, rfl, Json.increasing_insertField increasing, Json.fieldOf?_insertField⟩
  | _ => cases object

/-- The values that a path finds in some records have integers of up to 2⁵³ in size only. -/
def SmallAt (p : KeyPath) (records : List Json) : Prop :=
  ∀ r ∈ records, ∀ v, p.lookup r = some v → v.Numbers (Number.Among fun n => n.natAbs ≤ 2 ^ 53)

/-- The entries of a dataset whose key is equal to that of a record, both being present. -/
def matching (ignoreCase : Bool) (outerKey innerKey : KeyPath) (inner : List Json) (record : Json) : List Json :=
  inner.filter fun i => Join.keysMatch (Json.equality ignoreCase) (outerKey.lookup record) (innerKey.lookup i)

section Keys

variable {outerKey innerKey : KeyPath} {inner : List Json} {record : Json}

/-- What is found in plain groups is what a pass over the dataset finds. -/
theorem plainMatches_eq (ignoreCase : Bool) (innerWf : ∀ i ∈ inner, i.WellFormed) (innerSmall : SmallAt innerKey inner)
    (wf : record.WellFormed) (small : SmallAt outerKey [record]) :
    plainMatches ignoreCase outerKey innerKey inner record = matching ignoreCase outerKey innerKey inner record := by
  rw [plainMatches, matching]
  cases found : outerKey.lookup record with
  | none => simp [Join.keysMatch]
  | some key =>
    have laws := Json.lawfulOn_equality ignoreCase Number.faithful_of_natAbs_le
    refine Join.get_keyed_of_lawfulOn laws ?_ ?_
    · intro i member b key
      exact ⟨KeyPath.wellFormed_lookup (innerWf i member) key, innerSmall i member b key⟩
    · exact ⟨KeyPath.wellFormed_lookup wf found, small record List.mem_cons_self key found⟩

end Keys

/-- Past its checks, a join is what it reads off its index. -/
theorem joined_eq {e : Executor} {s : JoinSpec} {outerKey innerKey : KeyPath} {records : List Json}
    (outerParsed : path s.outerKey = .ok outerKey) (innerParsed : path s.innerKey = .ok innerKey)
    (objects : ∀ r ∈ records, r.isObject = true) (name : String)
    (finish : Lookup Json Json → KeyPath → List Json) :
    e.joined name s finish records = (e.indexed s innerKey).map fun l => finish l outerKey := by
  rw [Executor.joined, requireObjects_eq_ok objects, outerParsed, innerParsed]
  change (e.indexed s innerKey >>= fun l => pure (finish l outerKey)) = _
  cases e.indexed s innerKey <;> rfl

/-- The index of a known dataset finds what a pass over the dataset finds. -/
theorem indexed_matching {e : Executor} (usable : e.config.validate = .ok ())
    (word : e.config.initialBuckets ≤ Text.wordMax) {s : JoinSpec} {innerKey : KeyPath} {inner : List Json}
    (known : e.dataset s.inner = .ok inner) (innerWf : ∀ i ∈ inner, i.WellFormed) (innerSmall : SmallAt innerKey inner) :
    (∃ l, e.indexed s innerKey = .ok l ∧ ∀ (outerKey : KeyPath) o, o.WellFormed → SmallAt outerKey [o] →
        (GroupJoin.matchesOf l (outerKey.lookup o)).toList = matching s.ignoreCase outerKey innerKey inner o) ∨
      ∃ n, Lookup.Excess e.config inner.length n ∧ e.indexed s innerKey = .error (.core (.capacityOverflow n)) := by
  rcases indexed_cases usable word s innerKey with
    ⟨err, unknown, -⟩ | ⟨inner', l, known', indexed, finds⟩ | ⟨inner', n, known', excess, failed⟩
  · rw [known] at unknown
    cases unknown
  · obtain rfl : inner = inner' := Except.ok.inj (known.symm.trans known')
    refine Or.inl ⟨l, indexed, ?_⟩
    intro outerKey o wf small
    rw [finds, plainMatches_eq s.ignoreCase innerWf innerSmall wf small]
  · obtain rfl : inner = inner' := Except.ok.inj (known.symm.trans known')
    exact Or.inr ⟨n, excess, failed⟩

/-- **Join steps are nested loops.** On objects, a join gives each record once per entry of its dataset
with an equal key, the record's loop outside, and a group join gives each record once, with all these
entries in order. Nothing else of a record is changed. This asks that the keys have integers of up
to 2⁵³ in size only. Both steps fail, and in one way, only if the dataset is so large that a machine
word cannot count the buckets of its index. -/
theorem runStep_joins_nested {e : Executor} (usable : e.config.validate = .ok ())
    (word : e.config.initialBuckets ≤ Text.wordMax) {s : JoinSpec} {outerKey innerKey : KeyPath}
    (outerParsed : path s.outerKey = .ok outerKey) (innerParsed : path s.innerKey = .ok innerKey)
    {inner records : List Json} (known : e.dataset s.inner = .ok inner)
    (objects : ∀ r ∈ records, r.isObject = true) (wf : ∀ r ∈ records, r.WellFormed)
    (innerWf : ∀ i ∈ inner, i.WellFormed) (small : SmallAt outerKey records) (innerSmall : SmallAt innerKey inner) :
    (∀ o ∈ records, ∀ value, SetsField s.into value o (attach o s.into value)) ∧
    (e.runStep (.join s) records = .ok (records.flatMap fun o =>
          (matching s.ignoreCase outerKey innerKey inner o).map fun i => attach o s.into i) ∧
        e.runStep (.groupJoin s) records = .ok (records.map fun o =>
          attach o s.into (.array (matching s.ignoreCase outerKey innerKey inner o))) ∨
      ∃ n, Lookup.Excess e.config inner.length n ∧
        e.runStep (.join s) records = .error (.core (.capacityOverflow n)) ∧
        e.runStep (.groupJoin s) records = .error (.core (.capacityOverflow n))) := by
  refine ⟨fun o member => setsField_attach (objects o member) (wf o member) s.into, ?_⟩
  have join := @joined_eq e s outerKey innerKey records outerParsed innerParsed objects
  rw [Executor.runStep, Executor.runStep, Executor.runJoin_eq, Executor.runGroupJoin_eq, join, join]
  rcases indexed_matching usable word known innerWf innerSmall with ⟨l, indexed, finds⟩ | ⟨n, excess, failed⟩
  · have found : ∀ o ∈ records, (GroupJoin.matchesOf l (outerKey.lookup o)).toList =
        matching s.ignoreCase outerKey innerKey inner o := by
      intro o member
      refine finds outerKey o (wf o member) ?_
      intro r only
      exact small r (List.mem_singleton.1 only ▸ member)
    left
    rw [indexed, Except.map, Except.map, Join.toList_start, GroupJoin.toList_start]
    constructor
    · apply congrArg Except.ok
      apply List.flatMap_congr
      intro o member
      rw [found o member]
    · apply congrArg Except.ok
      apply List.map_congr_left
      intro o member
      rw [found o member]
  · exact Or.inr ⟨n, excess, by rw [failed]; rfl, by rw [failed]; rfl⟩

/-- Teams by number. Two have the same one, in two representations, and two have none. -/
def teams : List Json :=
  [.ofFields [("name", .string "red"), ("number", .number (.int 1))], .ofFields [("name", .string "blue")],
    .ofFields [("name", .string "green"), ("number", .number (.float (Floating.ofInt 1)))],
    .ofFields [("name", .string "grey"), ("number", .null)]]

/-- Players by the numbers of their teams. One has a team that there is not, and one has none. -/
def players : List Json :=
  [.ofFields [("name", .string "a"), ("team", .number (.float (Floating.ofInt 1)))],
    .ofFields [("name", .string "b"), ("team", .number (.int 2))], .ofFields [("name", .string "c")],
    .ofFields [("name", .string "d"), ("team", .number (.int 1))]]

/-- Players with their teams, each team in place of its number. -/
def playing : JoinSpec := ⟨"teams", "team", "number", "team", false⟩

/-- An executor that knows the teams. -/
def league : Executor := ⟨.default, [("teams", teams)]⟩

/-- The players of what a step gives, each with what a path finds, as texts. -/
def lineUp (p : KeyPath) (given : Except QueryError (List Json)) : Option (List (String × String)) :=
  given.toOption.map (List.map fun r =>
    (String.ofList (KeyPath.valueOrNull ⟨["name"]⟩ r).text, String.ofList (p.valueOrNull r).text))

/-- A player of team one is in the red and in the green team, and no other player is in any. -/
theorem runStep_joins_nested_league :
    league.config.validate = .ok () ∧ league.config.initialBuckets ≤ Text.wordMax ∧
      path playing.outerKey = .ok ⟨["team"]⟩ ∧ path playing.innerKey = .ok ⟨["number"]⟩ ∧
      league.dataset playing.inner = .ok teams ∧ (∀ r ∈ players, r.isObject = true) ∧
      (∀ r ∈ players, r.WellFormed) ∧ (∀ i ∈ teams, i.WellFormed) ∧ SmallAt ⟨["team"]⟩ players ∧
      SmallAt ⟨["number"]⟩ teams ∧
      league.runStep (.join playing) players = .ok (players.flatMap fun o =>
        (matching false ⟨["team"]⟩ ⟨["number"]⟩ teams o).map fun i => attach o "team" i) ∧
      league.runStep (.groupJoin playing) players = .ok (players.map fun o =>
        attach o "team" (.array (matching false ⟨["team"]⟩ ⟨["number"]⟩ teams o))) ∧
      lineUp ⟨["team", "name"]⟩ (league.runStep (.join playing) players) =
        some [("\"a\"", "\"red\""), ("\"a\"", "\"green\""), ("\"d\"", "\"red\""), ("\"d\"", "\"green\"")] ∧
      lineUp ⟨["team", "1", "name"]⟩ (league.runStep (.groupJoin playing) players) =
        some [("\"a\"", "\"green\""), ("\"b\"", "null"), ("\"c\"", "null"), ("\"d\"", "\"green\"")] := by
  have finite : (Floating.ofInt 1 : Double).isFinite = true := Floating.isFinite_ofInt (by decide)
  have objects : ∀ r ∈ players, r.isObject = true := by decide
  have wf : ∀ r ∈ players, r.WellFormed := by
    intro r member
    simp only [players, List.mem_cons, List.not_mem_nil, or_false] at member
    rcases member with rfl | rfl | rfl | rfl <;> apply Json.wellFormed_ofFields <;>
      simp [Json.wellFormed_string, Json.wellFormed_number_iff, Number.Representable, finite]
  have innerWf : ∀ i ∈ teams, i.WellFormed := by
    intro i member
    simp only [teams, List.mem_cons, List.not_mem_nil, or_false] at member
    rcases member with rfl | rfl | rfl | rfl <;> apply Json.wellFormed_ofFields <;>
      simp [Json.wellFormed_number_iff, Json.wellFormed_string, Json.wellFormed_null, Number.Representable, finite]
  have small : SmallAt ⟨["team"]⟩ players := by
    intro r member v found
    simp only [players, List.mem_cons, List.not_mem_nil, or_false] at member
    rcases member with rfl | rfl | rfl | rfl <;> cases found <;> simp [Json.Numbers, Number.Among]
  have innerSmall : SmallAt ⟨["number"]⟩ teams := by
    intro i member v found
    simp only [teams, List.mem_cons, List.not_mem_nil, or_false] at member
    rcases member with rfl | rfl | rfl | rfl <;> cases found <;> simp [Json.Numbers, Number.Among]
  have usable : league.config.validate = .ok () := rfl
  have word : league.config.initialBuckets ≤ Text.wordMax := by decide
  refine ⟨usable, word, rfl, rfl, rfl, objects, wf, innerWf, small, innerSmall, ?_⟩
  have nested := @runStep_joins_nested league usable word playing ⟨["team"]⟩ ⟨["number"]⟩ rfl rfl teams players rfl
    objects wf innerWf small innerSmall
  rcases nested.2 with ⟨join, groupJoin⟩ | ⟨n, excess, -⟩
  · exact ⟨join, groupJoin, by decide +kernel, by decide +kernel⟩
  · exact absurd excess.lt_count (by decide)

end Collate.Query
