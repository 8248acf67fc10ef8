import Collate.Proofs.Join.Emission
import Collate.Proofs.Join.Index
import Collate.Proofs.Lookup.Occurring
import Mathlib.Algebra.GroupWithZero.Nat

/-!
# The inner join and the nested loop

Under a lawful equality the inner join gives what two nested loops give: for each outer element in
order, one result per inner element, in order, whose key is present and equal. An absent key on
either side matches nothing, an absent one included.
-/

set_option autoImplicit false

namespace Collate.Join

variable {O K I R : Type}

/-- Two keys match when both are present and equal. -/
def keysMatch (e : Equality K) : Option K → Option K → Bool
  | some a, some b => e.equals a b
  | _, _ => false

/-- One result for each outer and inner element whose keys match: the outer loop first. -/
def nestedLoop (e : Equality K) (outerKey : O → Option K) (innerKey : I → Option K)
    (result : O → I → R) (outer : List O) (inner : List I) : List R :=
  outer.flatMap fun o => (inner.filter fun i => keysMatch e (outerKey o) (innerKey i)).map (result o)

theorem length_nestedLoop (e : Equality K) (outerKey : O → Option K) (innerKey : I → Option K)
    (result : O → I → R) (outer : List O) (inner : List I) :
    (nestedLoop e outerKey innerKey result outer inner).length =
      (outer.map fun o => inner.countP fun i => keysMatch e (outerKey o) (innerKey i)).sum := by
  simp only [nestedLoop, List.length_flatMap, List.length_map, List.countP_eq_length_filter]

/-- The elements gathered under a key are those with an equal key. -/
theorem get_keyed {e : Equality K} (lawful : e.Lawful) (inner : List I) (innerKey : I → Option K) (k : K) :
    (Listing.get e (Listing.pushAll e [] (Lookup.keyed innerKey inner)) k).toList =
      inner.filter fun i => keysMatch e (some k) (innerKey i) := by
  -- The elements of a class are those of the pairs with an equal key, so one filter meets another.
  have gathered : Listing.pushAll e [] (Lookup.keyed innerKey inner) =
      Listing.classes e Prod.fst Prod.snd (Lookup.keyed innerKey inner) := by
    rw [← Listing.pushAll_eq_classes lawful, List.map_id']
  rw [gathered, Listing.get_classes lawful, Lookup.keyed, List.filter_filterMap, List.map_filterMap,
    ← List.filterMap_eq_filter]
  congr 1
  funext i
  cases present : innerKey i with
  | none => simp [keysMatch, Option.guard, present]
  | some b =>
    have symmetric : e.equals b k = e.equals k b := Bool.eq_iff_iff.2 ⟨lawful.symm b k, lawful.symm k b⟩
    simp [keysMatch, Option.filter, Option.guard, present, symmetric]

/-- It is enough that the equality is lawful on the keys that occur. -/
theorem get_keyed_of_lawfulOn {e : Equality K} {S : K → Prop} (laws : e.LawfulOn S) {inner : List I}
    {innerKey : I → Option K} (inside : ∀ i ∈ inner, ∀ b, innerKey i = some b → S b) {k : K} (asked : S k) :
    (Listing.get e (Listing.pushAll e [] (Lookup.keyed innerKey inner)) k).toList =
      inner.filter fun i => keysMatch e (some k) (innerKey i) := by
  obtain ⟨e', lawful, agree⟩ := laws.exists_lawful
  have pushed : ∀ p ∈ Lookup.keyed innerKey inner, S p.1 := by
    intro p member
    obtain ⟨i, element, keyed⟩ := List.mem_filterMap.1 member
    obtain ⟨b, key, rfl⟩ := Option.map_eq_some_iff.1 keyed
    exact inside i element b key
  rw [← Listing.get_congr agree (Listing.forall_key_pushAll pushed) asked, ← Listing.pushAll_congr agree pushed,
    get_keyed lawful]
  apply List.filter_congr
  intro i element
  cases key : innerKey i with
  | none => rfl
  | some b => exact agree.equals k b asked (inside i element b key)

/-- The elements that a key finds in an index are those with an equal key. -/
theorem matchesOf_index {e : Equality K} (lawful : e.Lawful) {l : Lookup K I} {inner : List I}
    {innerKey : I → Option K}
    (mirrors : l.Mirrors e (Listing.pushAll e [] (Lookup.keyed innerKey inner))) (key : Option K) :
    (GroupJoin.matchesOf l key).toList = inner.filter fun i => keysMatch e key (innerKey i) := by
  cases key with
  | none => simp [GroupJoin.matchesOf, keysMatch]
  | some k => rw [GroupJoin.matchesOf, mirrors.get, get_keyed lawful]

/-- **The inner join equals the nested loop.** Under a lawful equality and a usable configuration,
the join of an outer source with an indexed inner side gives the results of the nested loop, in
its order, and then nothing; they are as many as the outer elements have matches together. Indexing
the inner side stops only if it needs more buckets than a machine word can count. -/
theorem inner_join_nested {e : Equality K} (lawful : e.Lawful) {config : Config}
    (usable : config.validate = .ok ()) (word : config.initialBuckets ≤ Text.wordMax)
    (outer : Source O) (inner : List I) (outerKey : O → Option K) (innerKey : I → Option K)
    (result : O → I → R) :
    (∃ l, Lookup.index e config inner innerKey = .ok l ∧
        Pull.Yields (pull outerKey result) (start outer l)
          (nestedLoop e outerKey innerKey result outer.rest inner) ∧
        (start outer l).toList outerKey result =
          nestedLoop e outerKey innerKey result outer.rest inner ∧
        ((start outer l).toList outerKey result).length =
          (outer.rest.map fun o => inner.countP fun i => keysMatch e (outerKey o) (innerKey i)).sum) ∨
      Lookup.IndexOverflow e config inner innerKey := by
  rcases Lookup.index_cases e usable word inner innerKey with ⟨l, indexed, mirrors⟩ | overflow
  · have results : ((start outer l).pending outerKey).map (fun p => result p.1 p.2) =
        nestedLoop e outerKey innerKey result outer.rest inner := by
      simp only [pending_start, matched, List.map_flatMap, List.map_map, matchesOf_index lawful mirrors]
      rfl
    have yields := yields_pending outerKey result (start outer l)
    have listed := toList_eq outerKey result (start outer l)
    rw [results] at yields listed
    exact Or.inl ⟨l, indexed, yields, listed, by rw [listed, length_nestedLoop]⟩
  · exact Or.inr overflow

/-- Outer keys of which one is absent, in a source that hides its length. -/
def someKeys : Source (Option Nat) := .ofList [some 4, none, some 3, some 7] false

/-- Inner elements of which one has no key. -/
def someValues : List (Option Nat × Nat) := [(some 1, 10), (none, 20), (some 2, 30), (some 10, 40)]

/-- By remainders modulo three, two outer keys meet two inner ones each, and the absent keys meet
nothing, though all keys share one bucket. -/
theorem inner_join_nested_remainders :
    Lookup.remainders.Lawful ∧ Config.validate ⟨1, 4⟩ = .ok () ∧ 1 ≤ Text.wordMax ∧
      ∃ l, Lookup.index Lookup.remainders ⟨1, 4⟩ someValues Prod.fst = .ok l ∧
        (start someKeys l).toList id (fun o i => (o, i.2)) =
          [(some 4, 10), (some 4, 40), (some 7, 10), (some 7, 40)] ∧
        ((start someKeys l).toList id fun o i => (o, i.2)).length = 4 := by
  refine ⟨Lookup.lawful_remainders, rfl, by decide, ?_⟩
  rcases inner_join_nested Lookup.lawful_remainders (rfl : Config.validate ⟨1, 4⟩ = .ok ()) (by decide)
    someKeys someValues id Prod.fst (fun o i => (o, i.2)) with
    ⟨l, indexed, -, listed, count⟩ | ⟨n, excess, -⟩
  · exact ⟨l, indexed, listed.trans (by decide), count.trans (by decide)⟩
  · exact absurd excess.lt_count (by decide)

end Collate.Join
