import Collate.Proofs.Json.Reading
import Collate.Proofs.Query.Plain
import Collate.Query.Record

/-!
# Records stay well-formed

Records that are read are well-formed. What a path finds in a well-formed record is well-formed,
and a step only rearranges records, puts them into fields and lists, or takes values out of them.
So every step of a run is given well-formed records, and the run gives such records.
-/

set_option autoImplicit false

namespace Collate.Query

/-! ## Records that are read -/

section Reading

variable {parse : List Char → Option Json} (parsed : ∀ {cs v}, parse cs = some v → v.WellFormed)
include parsed

theorem wellFormed_of_arrayRecords? {cs : List Char} {records : List Json}
    (read : arrayRecords? parse cs = some records) : ∀ r ∈ records, r.WellFormed := by
  rw [arrayRecords?] at read
  split at read
  · next items array =>
    cases read
    exact Json.wellFormed_array_iff.1 (parsed array)
  · cases read

theorem wellFormed_of_lineRecords? {cs : List Char} {records : List Json}
    (read : lineRecords? parse cs = some records) : ∀ r ∈ records, r.WellFormed := by
  rw [lineRecords?] at read
  generalize (Text.lines cs).filter (fun line => !Text.allBlank line) = lines at read
  induction lines generalizing records with
  | nil =>
    cases read
    nofun
  | cons line lines ih =>
    rw [List.mapM_cons] at read
    obtain ⟨r, first, read⟩ := Option.bind_eq_some_iff.1 read
    obtain ⟨rest, others, read⟩ := Option.bind_eq_some_iff.1 read
    cases read
    exact List.forall_mem_cons.2 ⟨parsed first, ih others⟩

/-- Records are well-formed if what makes values of texts makes well-formed ones. -/
theorem wellFormed_of_readRecords {source : String} {records : List Json}
    (read : readRecords parse source = .ok records) : ∀ r ∈ records, r.WellFormed := by
  rw [readRecords] at read
  split at read
  · next records' found =>
    cases read
    unfold records? at found
    dsimp only at found
    split at found
    · exact wellFormed_of_arrayRecords? parsed found
    · exact wellFormed_of_lineRecords? parsed found
  · cases read

end Reading

/-- **Records that are read are well-formed.** -/
theorem wellFormed_of_parseRecords {source : String} {records : List Json}
    (read : parseRecords source = .ok records) : ∀ r ∈ records, r.WellFormed :=
  wellFormed_of_readRecords Json.wellFormed_of_parseChars? read

/-! ## What a path finds -/

namespace KeyPath

/-- A step into a well-formed value finds a well-formed one. -/
theorem wellFormed_of_step {v w : Json} {segment : String} (wf : v.WellFormed)
    (found : step v segment = some w) : w.WellFormed := by
  cases v with
  | object fields =>
    have member := Json.mem_of_fieldOf? found
    exact (Json.wellFormed_object_iff.1 wf).2 _ member
  | array items =>
    obtain ⟨i, -, there⟩ := Option.bind_eq_some_iff.1 found
    exact Json.wellFormed_array_iff.1 wf w (List.mem_of_getElem? there)
  | null => cases found
  | bool b => cases found
  | number n => cases found
  | string s => cases found

theorem wellFormed_lookup {p : KeyPath} {record v : Json} (wf : record.WellFormed)
    (found : p.lookup record = some v) : v.WellFormed := by
  obtain ⟨segments⟩ := p
  obtain ⟨w, walked, present⟩ := Option.bind_eq_some_iff.1 found
  have same : w = v := by
    cases w <;> first | exact Option.some.inj present | cases present
  rw [← same]
  clear found present same
  induction segments generalizing record with
  | nil =>
    cases walked
    exact wf
  | cons segment rest ih =>
    rw [List.foldlM_cons] at walked
    obtain ⟨next, stepped, walked⟩ := Option.bind_eq_some_iff.1 walked
    exact ih (wellFormed_of_step wf stepped) walked

/-- What a path finds is not null. -/
theorem ne_null_of_lookup {p : KeyPath} {record v : Json} (found : p.lookup record = some v) : v ≠ .null := by
  obtain ⟨w, -, present⟩ := Option.bind_eq_some_iff.1 found
  cases w <;> cases present <;> nofun

/-- Only a missing value is taken as null. -/
theorem valueOrNull_eq_null_iff {p : KeyPath} {record : Json} :
    p.valueOrNull record = .null ↔ p.lookup record = none := by
  unfold valueOrNull
  cases found : p.lookup record with
  | none => simp
  | some v => simpa using ne_null_of_lookup found

/-- The key of a well-formed record is well-formed, if only as null. -/
theorem wellFormed_valueOrNull (p : KeyPath) {record : Json} (wf : record.WellFormed) :
    (p.valueOrNull record).WellFormed := by
  unfold valueOrNull
  cases found : p.lookup record with
  | none => exact Json.wellFormed_null
  | some v => exact wellFormed_lookup wf found

end KeyPath

theorem wellFormed_select (element : Option KeyPath) {record : Json} (wf : record.WellFormed) :
    (select element record).WellFormed := by
  cases element with
  | none => exact wf
  | some p => exact p.wellFormed_valueOrNull wf

/-! ## What steps make of records -/

theorem wellFormed_attach {record value : Json} (wf : record.WellFormed) (field : String)
    (fresh : value.WellFormed) : (attach record field value).WellFormed := by
  cases record with
  | object fields => exact Json.wellFormed_insertField wf fresh
  | _ => exact wf

/-- What gives a result has got one from its first part. -/
theorem exists_of_bind_eq_ok {ε α β : Type} {first : Except ε α} {next : α → Except ε β} {b : β}
    (given : (first >>= next) = .ok b) : ∃ a, first = .ok a ∧ next a = .ok b := by
  cases first with
  | error err => cases given
  | ok a => exact ⟨a, rfl, given⟩

section Steps

variable {dataset : String → Except QueryError (List Json)} {records out : List Json}

theorem wellFormed_plainGroup {key : String} {element : Option String} {ignoreCase : Bool}
    (wf : ∀ r ∈ records, r.WellFormed) (given : plainGroup key element ignoreCase records = .ok out) :
    ∀ r ∈ out, r.WellFormed := by
  obtain ⟨keyPath, -, given⟩ := exists_of_bind_eq_ok given
  obtain ⟨elementPath, -, given⟩ := exists_of_bind_eq_ok given
  cases given
  intro r member
  obtain ⟨g, there, rfl⟩ := List.mem_map.1 member
  obtain ⟨-, p, keyed, key⟩ := Listing.pushAll_filed _ _ g there
  apply Json.wellFormed_ofFields
  simp only [List.forall_mem_cons, List.not_mem_nil, false_imp_iff, implies_true, and_true]
  constructor
  · obtain ⟨record, inside, rfl⟩ := List.mem_map.1 keyed
    rw [← key]
    exact keyPath.wellFormed_valueOrNull (wf record inside)
  · rw [Json.wellFormed_array_iff]
    intro v element
    obtain ⟨p, filed, rfl⟩ := Listing.pushAll_kept _ _ g there v (Array.mem_toList_iff.1 element)
    obtain ⟨record, inside, rfl⟩ := List.mem_map.1 filed
    exact wellFormed_select elementPath (wf record inside)

theorem wellFormed_plainMatches {inner : List Json} (wf : ∀ r ∈ inner, r.WellFormed)
    (ignoreCase : Bool) (outerKey innerKey : KeyPath) (record : Json) :
    ∀ r ∈ plainMatches ignoreCase outerKey innerKey inner record, r.WellFormed := by
  intro r member
  unfold plainMatches at member
  split at member
  · obtain ⟨p, filed, rfl⟩ := Listing.exists_of_mem_get _ (Array.mem_toList_iff.1 member)
    obtain ⟨i, inside, keyed⟩ := List.mem_filterMap.1 filed
    obtain ⟨k, -, rfl⟩ := Option.map_eq_some_iff.1 keyed
    exact wf i inside
  · cases member

theorem wellFormed_plainJoin {name : String} {s : JoinSpec} {give : Json → List Json → List Json}
    (gives : ∀ o is, o.WellFormed → (∀ i ∈ is, i.WellFormed) → ∀ r ∈ give o is, r.WellFormed)
    (sound : ∀ name inner, dataset name = .ok inner → ∀ r ∈ inner, r.WellFormed)
    (wf : ∀ r ∈ records, r.WellFormed) (given : plainJoin dataset name s give records = .ok out) :
    ∀ r ∈ out, r.WellFormed := by
  obtain ⟨-, -, given⟩ := exists_of_bind_eq_ok given
  obtain ⟨outerKey, -, given⟩ := exists_of_bind_eq_ok given
  obtain ⟨innerKey, -, given⟩ := exists_of_bind_eq_ok given
  obtain ⟨inner, known, given⟩ := exists_of_bind_eq_ok given
  cases given
  intro r member
  obtain ⟨o, outer, made⟩ := List.mem_flatMap.1 member
  exact gives o _ (wf o outer) (wellFormed_plainMatches (sound _ _ known) _ _ _ o) r made

/-- A step gives well-formed records if it is given such and reads such. -/
theorem Step.wellFormed_plain {step : Step}
    (sound : ∀ name inner, dataset name = .ok inner → ∀ r ∈ inner, r.WellFormed)
    (wf : ∀ r ∈ records, r.WellFormed) (given : step.plain dataset records = .ok out) :
    ∀ r ∈ out, r.WellFormed := by
  cases step with
  | group key element ignoreCase => exact wellFormed_plainGroup wf given
  | order levels =>
    intro r member
    exact wf r ((perm_of_runOrder given).mem_iff.1 member)
  | join s =>
    rw [Step.plain] at given
    refine wellFormed_plainJoin ?_ sound wf given
    intro o is outer inner r member
    obtain ⟨i, there, rfl⟩ := List.mem_map.1 member
    exact wellFormed_attach outer s.into (inner i there)
  | groupJoin s =>
    rw [Step.plain] at given
    refine wellFormed_plainJoin ?_ sound wf given
    intro o is outer inner r member
    rw [List.mem_singleton.1 member]
    exact wellFormed_attach outer s.into (Json.wellFormed_array_iff.2 inner)

theorem wellFormed_plainSteps {steps : List Step}
    (sound : ∀ name inner, dataset name = .ok inner → ∀ r ∈ inner, r.WellFormed)
    (wf : ∀ r ∈ records, r.WellFormed) (given : plainSteps dataset steps records = .ok out) :
    ∀ r ∈ out, r.WellFormed := by
  induction steps generalizing records with
  | nil =>
    cases given
    exact wf
  | cons step rest ih =>
    rw [plainSteps] at given
    split at given
    · cases given
    · next received handed => exact ih (step.wellFormed_plain sound wf handed) given

end Steps

/-- **A run of a query gives well-formed records** if it is given such and its datasets hold such. -/
theorem wellFormed_run {e : Executor} (usable : e.config.validate = .ok ())
    (word : e.config.initialBuckets ≤ Text.wordMax) (sound : ∀ d ∈ e.datasets, ∀ r ∈ d.2, r.WellFormed)
    {q : Query} {input out : List Json} (wf : ∀ r ∈ input, r.WellFormed) (done : e.run q input = .ok out) :
    ∀ r ∈ out, r.WellFormed := by
  have datasets : ∀ name inner, e.dataset name = .ok inner → ∀ r ∈ inner, r.WellFormed := by
    intro name inner known
    rw [Executor.dataset] at known
    split at known
    · next d found =>
      cases known
      exact sound d (List.mem_of_find?_eq_some found)
    · cases known
  have steps : e.runSteps q.steps input = .ok out := by
    rw [run_eq usable] at done
    split at done
    · cases done
    · cases done
    · exact done
  rcases runSteps_cases usable word q.steps input with plain | ⟨n, -, failed⟩
  · rw [plain] at steps
    exact wellFormed_plainSteps datasets wf steps
  · rw [failed] at steps
    cases steps

end Collate.Query
