import Collate.Proofs.Query.Plain

/-!
# Tuning does not show in results

Bucket counts and buffer seeds decide how a query is run, and not what it gives. This holds for all
records, those included under whose keys the equality of JSON values is no equivalence: the group
that a key finds is the newest that answers it, in however many buckets the groups are filed.
-/

set_option autoImplicit false

namespace Collate.Query

/-- A group step on its own files what it is given. -/
theorem Outgrown.lt_length {e : Executor} {key : String} {element : Option String} {ignoreCase : Bool}
    {records : List Json} {n : Nat} (outgrown : Outgrown e [.group key element ignoreCase] records n) :
    Text.wordMax < 2 * records.length + 1 := by
  obtain ⟨before, step, after, received, split, reached, excess⟩ := outgrown
  cases before with
  | nil =>
    cases reached
    cases split
    exact excess.lt_count
  | cons => simp at split

/-- **Results do not depend on the tuning.** Two executors with the same datasets and any two usable
configurations give the same records, or the same error, for every query on every input, unless
one of them stops at a step that files more records than a lookup can count buckets for. -/
theorem run_untuned (datasets : List (String × List Json)) (q : Query) (input : List Json)
    {c c' : Config} (usable : c.validate = .ok ()) (word : c.initialBuckets ≤ Text.wordMax)
    (usable' : c'.validate = .ok ()) (word' : c'.initialBuckets ≤ Text.wordMax) :
    Executor.run ⟨c, datasets⟩ q input = Executor.run ⟨c', datasets⟩ q input ∨
      Overflows ⟨c, datasets⟩ q input ∨ Overflows ⟨c', datasets⟩ q input := by
  -- What the checks and the plain steps ask for is the datasets, and these are the same.
  let e : Executor := ⟨c, datasets⟩
  let e' : Executor := ⟨c', datasets⟩
  have run := run_eq (e := e) usable q input
  have run' := run_eq (e := e') usable' q input
  have known : e'.registered = e.registered := rfl
  have dataset : e'.dataset = e.dataset := rfl
  rw [known] at run'
  cases valid : q.validate with
  | error err =>
    rw [valid] at run run'
    exact Or.inl (run.trans run'.symm)
  | ok =>
    cases missing : q.datasets.find? fun name => !e.registered name with
    | some name =>
      rw [valid, missing] at run run'
      exact Or.inl (run.trans run'.symm)
    | none =>
      rw [valid, missing] at run run'
      rcases runSteps_cases (e := e) usable word q.steps input with plain | ⟨n, outgrown, failed⟩
      · rcases runSteps_cases (e := e') usable' word' q.steps input with plain' | ⟨n, outgrown, failed⟩
        · rw [dataset] at plain'
          exact Or.inl ((run.trans plain).trans (run'.trans plain').symm)
        · exact Or.inr (Or.inr ⟨n, outgrown, run'.trans failed⟩)
      · exact Or.inr (Or.inl ⟨n, outgrown, run.trans failed⟩)

/-- The values at `k`, grouped by themselves. -/
def groupedByK : Query := ⟨none, [.group "k" (some "k") false]⟩

def underK (number : Number) : Json := .object [("k", .number number)]

/-- 2⁵³ + 1, 2⁵³ and 2⁵³ as a float: the float equals both integers, which are not equal. -/
def crowded : List Json :=
  [underK (.int 9007199254740993), underK (.int 9007199254740992), underK (.float ⟨false, 0x4340000000000000⟩)]

/-- The float goes to the newer of the two groups that it equals, in one bucket as in seven. -/
theorem run_untuned_crowded :
    Config.validate ⟨1, 1⟩ = .ok () ∧ 1 ≤ Text.wordMax ∧ Config.validate ⟨7, 4⟩ = .ok () ∧
      7 ≤ Text.wordMax ∧
      Executor.run ⟨⟨1, 1⟩, []⟩ groupedByK crowded = Executor.run ⟨⟨7, 4⟩, []⟩ groupedByK crowded ∧
      (Executor.run ⟨⟨7, 4⟩, []⟩ groupedByK crowded).toOption.map
          (List.map fun group => (KeyPath.valueOrNull ⟨["elements"]⟩ group).text) =
        some ["[9007199254740993]".toList, "[9007199254740992,9007199254740992.0]".toList] := by
  refine ⟨by rfl, by decide, by rfl, by decide, ?_, by decide +kernel⟩
  rcases run_untuned [] groupedByK crowded (by rfl : Config.validate ⟨1, 1⟩ = .ok ()) (by decide)
    (by rfl : Config.validate ⟨7, 4⟩ = .ok ()) (by decide) with same | ⟨n, outgrown, -⟩ | ⟨n, outgrown, -⟩
  · exact same
  · exact absurd outgrown.lt_length (by decide)
  · exact absurd outgrown.lt_length (by decide)

end Collate.Query
