import Collate.Proofs.Join.Emission
import Collate.Proofs.Join.Index

/-!
# The two joins agree

The inner join searches its index by place and position, the group join by key. Both come to the
groups that a plain list has for the same keys, whatever the equality does and however many buckets
each of them started with, so the inner join gives the pairs of the group join one by one.
-/

set_option autoImplicit false

namespace Collate

variable {O K I : Type}

/-- Two indexes of one list give the same matches under every key. -/
theorem GroupJoin.matchesOf_mirrors {e : Equality K} {groups : List (Group K I)} {l l' : Lookup K I}
    (mirrors : l.Mirrors e groups) (mirrors' : l'.Mirrors e groups) (key : Option K) :
    matchesOf l key = matchesOf l' key := by
  cases key with
  | none => rfl
  | some k => rw [matchesOf, matchesOf, mirrors.get, mirrors'.get]

/-- Where no group is empty, a key without matches is absent or has no group. -/
theorem GroupJoin.matchesOf_eq_empty_iff {e : Equality K} {groups : List (Group K I)} {l : Lookup K I}
    (mirrors : l.Mirrors e groups) (inhabited : ∀ g ∈ groups, g.elements ≠ #[]) (key : Option K) :
    matchesOf l key = #[] ↔ ∀ k, key = some k → l.contains k = false := by
  cases key with
  | none => simp [matchesOf]
  | some k =>
    rw [matchesOf, mirrors.get, Listing.get]
    simp only [Option.some.injEq, forall_eq', mirrors.contains]
    cases found : Listing.group? e groups k with
    | none => simp
    | some g =>
      obtain ⟨place, -, here⟩ := Option.bind_eq_some_iff.1 found
      simpa using inhabited g (List.mem_of_getElem? here)

/-- A key that no inner key answers has no matches. -/
theorem GroupJoin.matchesOf_eq_empty {e : Equality K} {inner : List I} {innerKey : I → Option K}
    {l : Lookup K I} (mirrors : l.Mirrors e (Listing.pushAll e [] (Lookup.keyed innerKey inner))) {k : K}
    (silent : ∀ i ∈ inner, ∀ b, innerKey i = some b → e.storedHash b = e.storedHash k → e.equals b k = false) :
    matchesOf l (some k) = #[] := by
  have none : Listing.group? e (Listing.pushAll e [] (Lookup.keyed innerKey inner)) k = none := by
    apply Listing.group?_pushAll_eq_none
    intro p member
    obtain ⟨i, element, keyed⟩ := List.mem_filterMap.1 member
    obtain ⟨b, key, rfl⟩ := Option.map_eq_some_iff.1 keyed
    exact silent i element b key
  rw [matchesOf, mirrors.get, Listing.get, none]

/-- A group join pairs each outer element with its matches, and an inner join gives these pairs one
by one. -/
structure JoinsAgree (e : Equality K) (outerKey : O → Option K) (innerKey : I → Option K)
    (outer : List O) (inner : List I) (join : Join O K I) (groupJoin : GroupJoin O K I)
    (pairs : List (O × Array I)) : Prop where
  grouped : Pull.Yields (GroupJoin.pull outerKey Prod.mk) groupJoin pairs
  listed : groupJoin.toList outerKey Prod.mk = pairs
  outers : pairs.map Prod.fst = outer
  unmatched : ∀ p ∈ pairs, p.2 = #[] ↔ ∀ k, outerKey p.1 = some k → groupJoin.lookup.contains k = false
  unanswered : ∀ p ∈ pairs, ∀ k, outerKey p.1 = some k →
    (∀ i ∈ inner, ∀ b, innerKey i = some b → e.storedHash b = e.storedHash k → e.equals b k = false) →
    p.2 = #[]
  flattened : Pull.Yields (Join.pull outerKey Prod.mk) join
    (pairs.flatMap fun p => p.2.toList.map fun i => (p.1, i))
  flatListed : join.toList outerKey Prod.mk = pairs.flatMap fun p => p.2.toList.map fun i => (p.1, i)

/-- **The two joins agree under any equality**, with any two usable configurations: the group join
gives each outer element once and in order, with no matches exactly when its key is absent or has
no group, and the inner join gives the same matches one at a time. -/
theorem joins_agree (e : Equality K) {c c' : Config} (usable : c.validate = .ok ())
    (word : c.initialBuckets ≤ Text.wordMax) (usable' : c'.validate = .ok ())
    (word' : c'.initialBuckets ≤ Text.wordMax) (outer : Source O) (inner : List I)
    (outerKey : O → Option K) (innerKey : I → Option K) :
    (∃ l l' pairs, Lookup.index e c inner innerKey = .ok l ∧ Lookup.index e c' inner innerKey = .ok l' ∧
        JoinsAgree e outerKey innerKey outer.rest inner (.start outer l) (.start outer l') pairs) ∨
      Lookup.IndexOverflow e c inner innerKey ∨ Lookup.IndexOverflow e c' inner innerKey := by
  rcases Lookup.index_cases e usable word inner innerKey with ⟨l, indexed, mirrors⟩ | overflow
  · rcases Lookup.index_cases e usable' word' inner innerKey with ⟨l', indexed', mirrors'⟩ | overflow'
    · have inhabited := Listing.pushAll_inhabited e (Lookup.keyed innerKey inner)
      -- The two indexes mirror one list of groups, so each key finds the same matches in both.
      have flat : (Join.start outer l).pending outerKey =
          ((GroupJoin.start outer l').pending outerKey).flatMap fun p => p.2.toList.map fun i => (p.1, i) := by
        rw [Join.pending_start, GroupJoin.pending_start, List.flatMap_map]
        congr 1
        funext o
        rw [Join.matched, GroupJoin.matchesOf_mirrors mirrors mirrors']
      have grouped := GroupJoin.yields_pending outerKey Prod.mk (.start outer l')
      have listed := GroupJoin.toList_eq outerKey Prod.mk (.start outer l')
      have flattened := Join.yields_pending outerKey Prod.mk (.start outer l)
      have flatListed := Join.toList_eq outerKey Prod.mk (.start outer l)
      rw [List.map_id'] at grouped listed flattened flatListed
      rw [flat] at flattened flatListed
      refine Or.inl ⟨l, l', _, indexed, indexed', grouped, listed, ?_, ?_, ?_, flattened, flatListed⟩
      · rw [GroupJoin.pending_start, List.map_map]
        exact List.map_id _
      · intro p member
        obtain ⟨o, -, rfl⟩ := List.mem_map.1 member
        exact GroupJoin.matchesOf_eq_empty_iff mirrors' inhabited (outerKey o)
      · intro p member k present silent
        obtain ⟨o, -, rfl⟩ := List.mem_map.1 member
        change outerKey o = some k at present
        change GroupJoin.matchesOf l' (outerKey o) = #[]
        rw [present]
        exact GroupJoin.matchesOf_eq_empty mirrors' silent
    · exact Or.inr (Or.inr overflow')
  · exact Or.inr (Or.inl overflow)

namespace Join

/-- Outer keys, one of them absent and one without a neighbour. -/
def scattered : Source (Option Nat) := .ofList [some 3, none, some 9] true

/-- Inner elements under keys of which the third neighbours both others. -/
def clustered : List (Option Nat × Nat) := [(some 2, 20), (some 4, 40), (some 3, 30), (none, 0)]

/-- The key 3 finds the newer of the two groups that it neighbours, in one bucket as in five. -/
theorem joins_agree_neighbours :
    Config.validate ⟨1, 4⟩ = .ok () ∧ Config.validate ⟨5, 1⟩ = .ok () ∧ 5 ≤ Text.wordMax ∧
      ∃ l l', Lookup.index Lookup.neighbours ⟨1, 4⟩ clustered Prod.fst = .ok l ∧
        Lookup.index Lookup.neighbours ⟨5, 1⟩ clustered Prod.fst = .ok l' ∧
        JoinsAgree Lookup.neighbours id Prod.fst scattered.rest clustered (.start scattered l) (.start scattered l')
          [(some 3, #[(some 4, 40), (some 3, 30)]), (none, #[]), (some 9, #[])] := by
  refine ⟨rfl, rfl, by decide, ?_⟩
  rcases joins_agree Lookup.neighbours (rfl : Config.validate ⟨1, 4⟩ = .ok ()) (by decide)
      (rfl : Config.validate ⟨5, 1⟩ = .ok ()) (by decide) scattered clustered id Prod.fst with
    ⟨l, l', pairs, indexed, indexed', agree⟩ | ⟨n, excess, -⟩ | ⟨n, excess, -⟩
  · have computed : (Lookup.index Lookup.neighbours ⟨5, 1⟩ clustered Prod.fst).map
        (fun l => (GroupJoin.start scattered l).toList id Prod.mk) =
        .ok [(some 3, #[(some 4, 40), (some 3, 30)]), (none, #[]), (some 9, #[])] := by rfl
    rw [indexed', Except.map, agree.listed] at computed
    rw [Except.ok.inj computed] at agree
    exact ⟨l, l', indexed, indexed', agree⟩
  · exact absurd excess.lt_count (by decide)
  · exact absurd excess.lt_count (by decide)

end Join

end Collate
