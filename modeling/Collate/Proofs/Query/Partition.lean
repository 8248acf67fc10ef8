import Collate.Proofs.Json.Equality
import Collate.Proofs.Lookup.Partition
import Collate.Proofs.Query.WellFormed

/-!
# A group step is a stable partition

A group step shares out its records among the groups that it gives. Its keys are what a path finds
in well-formed records, so they are well-formed themselves, and that is enough for equality to be
reflexive and symmetric with a hash that respects it. Where no two integers in the keys become one
number of the 64-bit format, records share a group exactly if their keys are equal.
-/

set_option autoImplicit false

namespace Collate.Query

open Listing

theorem groupRecord_eq (g : Group Json Json) :
    groupRecord g = .object [("elements", .array g.elements.toList), ("key", g.key)] := by
  have before : compare "elements" "key" = .lt := by decide
  simp [groupRecord, Json.ofFields, Json.insertField, before]

/-- What is missing counts as null: just the records without a key are in the group under null. The
elements of a group are its records, or what a path finds in them, with a null for each in which it
finds nothing. -/
structure NullForMissing (keyPath : KeyPath) (elementPath : Option KeyPath) (records : List Json) (seats : List Nat)
    (groups : List (Group Json Json)) : Prop where
  key : ∀ (i s : Nat) r g, records[i]? = some r → seats[i]? = some s → groups[s]? = some g →
    (keyPath.lookup r = none ↔ g.key = .null)
  elements : ∀ (s : Nat) g, groups[s]? = some g →
    let own := ((records.zip seats).filter fun x => x.2 == s).map Prod.fst
    (elementPath = none → g.elements.toList = own) ∧
      ∀ p, elementPath = some p → g.elements.toList = own.map fun r => (p.lookup r).getD .null

/-- Only null equals null. -/
theorem null_iff_of_equals {fold : Bool} {v w : Json} (same : Json.equals fold v w = true) :
    v = .null ↔ w = .null := by
  cases v <;> cases w <;> simp_all [Json.equals]

theorem nullForMissing_of_stablePartition {ignoreCase : Bool} {keyPath : KeyPath} {elementPath : Option KeyPath}
    {records : List Json} {seats : List Nat} {groups : List (Group Json Json)}
    (partition : StablePartition (Json.equality ignoreCase) keyPath.valueOrNull (select elementPath) records
      seats groups) : NullForMissing keyPath elementPath records seats groups where
  key := by
    intro i s r g record seat here
    obtain ⟨h, there, same⟩ := partition.equal i r s record seat
    obtain rfl : g = h := Option.some.inj (here.symm.trans there)
    rw [← KeyPath.valueOrNull_eq_null_iff]
    exact null_iff_of_equals same
  elements := by
    intro s g here
    rw [partition.gathered s g here]
    constructor
    · rintro rfl
      rfl
    · rintro p rfl
      rw [List.map_map]
      rfl

/-- **A group step is a stable partition** of its records, whatever numbers they hold, and gives
one object for each group, what is missing counting as null. With integers of up to 2⁵³ in size in
all keys, two records are in one group exactly if their keys are equal. The step fails only if there
are so many groups that a machine word cannot count their buckets. -/
theorem runStep_group_partition {e : Executor} (usable : e.config.validate = .ok ())
    (word : e.config.initialBuckets ≤ Text.wordMax) {key : String} {element : Option String}
    {keyPath : KeyPath} {elementPath : Option KeyPath} (keyParsed : path key = .ok keyPath)
    (elementParsed : path? element = .ok elementPath) (ignoreCase : Bool) {records : List Json}
    (wf : ∀ r ∈ records, r.WellFormed) :
    (∃ groups seats,
      e.runStep (.group key element ignoreCase) records =
        .ok (groups.map fun g => .object [("elements", .array g.elements.toList), ("key", g.key)]) ∧
      StablePartition (Json.equality ignoreCase) keyPath.valueOrNull (select elementPath) records
        seats groups ∧
      NullForMissing keyPath elementPath records seats groups ∧
      ((∀ r ∈ records, (keyPath.valueOrNull r).Numbers (Number.Among fun n => n.natAbs ≤ 2 ^ 53)) →
        ∀ (i j : Nat) a b, records[i]? = some a → records[j]? = some b →
          (seats[i]? = seats[j]? ↔
            Json.equals ignoreCase (keyPath.valueOrNull a) (keyPath.valueOrNull b) = true))) ∨
    ∃ n, Lookup.Excess e.config records.length n ∧
      e.runStep (.group key element ignoreCase) records = .error (.core (.capacityOverflow n)) := by
  have keysWf : ∀ r ∈ records, (keyPath.valueOrNull r).WellFormed :=
    fun r member => keyPath.wellFormed_valueOrNull (wf r member)
  obtain ⟨seats, partition, lawful⟩ := exists_stablePartition (Json.toleranceOn_equality ignoreCase)
    keyPath.valueOrNull (select elementPath) keysWf
  rcases runGroup_cases usable word key element ignoreCase records with done | failed
  · left
    refine ⟨plainGroups ignoreCase keyPath elementPath records, seats, ?_, partition,
      nullForMissing_of_stablePartition partition, ?_⟩
    · rw [Executor.runStep, done, plainGroup, keyParsed, elementParsed]
      rw [← funext groupRecord_eq]
      rfl
    · intro small i j a b
      exact lawful (Json.Over fun n => n.natAbs ≤ 2 ^ 53)
        (Json.lawfulOn_equality ignoreCase Number.faithful_of_natAbs_le)
        (fun r member => ⟨keysWf r member, small r member⟩) i j a b
  · exact Or.inr failed

/-- Records under an integer past 2⁵³, its neighbour's number, nothing, and the neighbour; the second has
no value, and the third nothing else. -/
def neighbouring : List Json :=
  [.object [("k", .number (.int 9007199254740993)), ("v", .string "a")],
    .object [("k", .number (.float (Floating.ofInt 9007199254740992)))],
    .object [("v", .string "c")],
    .object [("k", .number (.int 9007199254740992)), ("v", .string "d")]]

/-- The number joins the integer that comes first, where it leaves a null, and its own integer founds
the last group. In between stands that of the record without a key. -/
theorem runStep_group_partition_neighbouring :
    let e : Executor := ⟨⟨7, 4⟩, []⟩
    let step := Step.group "k" (some "v") false
    e.config.validate = .ok () ∧ e.config.initialBuckets ≤ Text.wordMax ∧ path "k" = .ok ⟨["k"]⟩ ∧
      path? (some "v") = .ok (some ⟨["v"]⟩) ∧ (∀ r ∈ neighbouring, r.WellFormed) ∧
      ∃ groups seats,
        e.runStep step neighbouring =
          .ok (groups.map fun g => .object [("elements", .array g.elements.toList), ("key", g.key)]) ∧
        StablePartition (Json.equality false) (KeyPath.valueOrNull ⟨["k"]⟩) (KeyPath.valueOrNull ⟨["v"]⟩)
          neighbouring seats groups ∧
        NullForMissing ⟨["k"]⟩ (some ⟨["v"]⟩) neighbouring seats groups ∧
        (e.runStep step neighbouring).toOption.map (List.map Json.text) =
          some ["\x7b\"elements\":[\"a\",null],\"key\":9007199254740993\x7d".toList,
            "\x7b\"elements\":[\"c\"],\"key\":null\x7d".toList,
            "\x7b\"elements\":[\"d\"],\"key\":9007199254740992\x7d".toList] := by
  intro e step
  have usable : e.config.validate = .ok () := rfl
  have word : e.config.initialBuckets ≤ Text.wordMax := by decide
  have wf : ∀ r ∈ neighbouring, r.WellFormed := by
    have before : compare "k" "v" = .lt := by decide
    have sorted : ∀ r ∈ neighbouring, r.Sorted := by
      simp [neighbouring, Json.Sorted, Json.Increasing, Json.SortedFields, before]
    have numbers : ∀ r ∈ neighbouring, r.Numbers Number.Representable := by
      have finite : (Floating.ofInt 9007199254740992 : Double).isFinite = true :=
        Floating.isFinite_ofInt (by decide)
      simp [neighbouring, Json.Numbers, Json.NumbersFields, Number.Representable, finite]
    exact fun r member => ⟨sorted r member, numbers r member⟩
  refine ⟨usable, word, rfl, rfl, wf, ?_⟩
  rcases runStep_group_partition usable word (rfl : path "k" = .ok ⟨["k"]⟩)
    (rfl : path? (some "v") = .ok (some ⟨["v"]⟩)) false wf with
    ⟨groups, seats, done, partition, nulls, -⟩ | ⟨n, excess, -⟩
  · exact ⟨groups, seats, done, partition, nulls, by decide +kernel⟩
  · exact absurd excess.lt_count (by decide)

end Collate.Query
