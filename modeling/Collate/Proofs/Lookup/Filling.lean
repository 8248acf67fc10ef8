import Collate.Proofs.Lookup.Grouping

/-!
# Filling a lookup

A lookup that starts empty and takes some pairs holds the groups of a plain list that takes the
same pairs. Whatever the equality does, there are no more groups than pairs, each group has an
element, and its key is that of the pair which founded it. Only the number of buckets can stop the
filling, and only with more pairs than half of what a machine word counts.
-/

set_option autoImplicit false

namespace Collate

namespace Listing

variable {K V : Type} (e : Equality K)

theorem length_push_le (groups : List (Group K V)) (key : K) (value : V) :
    (push e groups key value).length ≤ groups.length + 1 := by
  unfold push
  split <;> simp

/-- There are no more groups than pushes. -/
theorem length_pushAll_le (groups : List (Group K V)) (pairs : List (K × V)) :
    (pushAll e groups pairs).length ≤ groups.length + pairs.length := by
  induction pairs generalizing groups with
  | nil => exact Nat.le_refl _
  | cons p pairs ih =>
    have one := length_push_le e groups p.1 p.2
    have others := ih (push e groups p.1 p.2)
    rw [pushAll] at others ⊢
    rw [List.foldl_cons, List.length_cons]
    omega

/-- A push grows one group or founds one; all others stay as they are. -/
theorem forall_push {P : Group K V → Prop} {groups : List (Group K V)} {key : K} {value : V}
    (old : ∀ g ∈ groups, P g) (founded : P ⟨key, e.storedHash key, #[value]⟩)
    (grown : ∀ g, P g → P { g with elements := g.elements.push value }) :
    ∀ g ∈ push e groups key value, P g := by
  intro g member
  rw [push_eq] at member
  split at member
  · obtain ⟨i, found⟩ := List.mem_iff_getElem?.1 member
    rw [List.getElem?_modify] at found
    obtain ⟨before, there, rfl⟩ := Option.map_eq_some_iff.1 found
    have kept := old before (List.mem_of_getElem? there)
    split
    · exact grown before kept
    · exact kept
  · rcases List.mem_append.1 member with kept | new
    · exact old g kept
    · rw [List.mem_singleton.1 new]
      exact founded

/-- What holds of every new group, and of a group that grows, holds of all groups. -/
theorem forall_pushAll {P : Group K V → Prop} (pairs : List (K × V))
    (founded : ∀ p ∈ pairs, P ⟨p.1, e.storedHash p.1, #[p.2]⟩)
    (grown : ∀ g, ∀ p ∈ pairs, P g → P { g with elements := g.elements.push p.2 }) :
    ∀ g ∈ pushAll e [] pairs, P g := by
  induction pairs using List.reverseRecOn with
  | nil => nofun
  | append_singleton pairs p ih =>
    have old := ih (fun p member => founded p (List.mem_append_left _ member))
      fun g p member => grown g p (List.mem_append_left _ member)
    rw [pushAll, List.foldl_append]
    exact forall_push e old (founded p (by simp)) fun g => grown g p (by simp)

theorem pushAll_inhabited (pairs : List (K × V)) :
    ∀ g ∈ pushAll e [] pairs, g.elements ≠ #[] :=
  forall_pushAll e pairs (by simp) (by simp)

/-- A group's key is one that was pushed, and it is stored under that key's hash. -/
theorem pushAll_filed (pairs : List (K × V)) :
    ∀ g ∈ pushAll e [] pairs, g.hash = e.storedHash g.key ∧ ∃ p ∈ pairs, p.1 = g.key :=
  forall_pushAll e pairs (fun p member => ⟨rfl, p, member, rfl⟩) fun _ _ _ filed => filed

/-- A group's elements are values that were pushed. -/
theorem pushAll_kept (pairs : List (K × V)) :
    ∀ g ∈ pushAll e [] pairs, ∀ v ∈ g.elements, ∃ p ∈ pairs, p.2 = v := by
  refine forall_pushAll e pairs ?_ ?_
  · intro p member v single
    have same : v = p.2 := by simpa using single
    exact ⟨p, member, same.symm⟩
  · intro g p member kept v more
    rcases Array.mem_push.1 more with old | rfl
    · exact kept v old
    · exact ⟨p, member, rfl⟩

/-- What is found under a key was pushed. -/
theorem exists_of_mem_get {pairs : List (K × V)} {query : K} {v : V}
    (found : v ∈ get e (pushAll e [] pairs) query) : ∃ p ∈ pairs, p.2 = v := by
  rw [get, group?] at found
  split at found
  · next g there =>
    obtain ⟨place, -, here⟩ := Option.bind_eq_some_iff.1 there
    exact pushAll_kept e pairs g (List.mem_of_getElem? here) v found
  · simp at found

/-- A key that no pushed key answers has no group. -/
theorem group?_pushAll_eq_none {pairs : List (K × V)} {query : K}
    (silent : ∀ p ∈ pairs, e.storedHash p.1 = e.storedHash query → e.equals p.1 query = false) :
    group? e (pushAll e [] pairs) query = none := by
  have nowhere : place? e (pushAll e [] pairs) query = none := by
    rw [place?_eq_none_iff]
    intro g member
    obtain ⟨stored, p, pushed, key⟩ := pushAll_filed e pairs g member
    have apart := silent p pushed
    rw [key] at apart
    rw [Lookup.answers, stored]
    by_cases hash : e.storedHash g.key = e.storedHash query
    · simp [apart hash]
    · simp [hash]
  rw [group?, nowhere, Option.bind_none]

end Listing

namespace Lookup

variable {K V α : Type}

/-- So many groups can be founded by `count` pairs, are more than the buckets at the start, and
need more buckets than a machine word can count. -/
structure Excess (config : Config) (count n : Nat) : Prop where
  outnumbers : config.initialBuckets < n
  founded : n ≤ count
  uncounted : Text.wordMax < 2 * n + 1

/-- It takes half as many pairs as a machine word counts. -/
theorem Excess.lt_count {config : Config} {count n : Nat} (excess : Excess config count n) :
    Text.wordMax < 2 * count + 1 := by
  have founded := excess.founded
  have uncounted := excess.uncounted
  omega

/-- Pushes onto an empty lookup are all made and mirror the same pushes onto the empty list, or
there are too many groups for a machine word to count their buckets. -/
theorem empty_pushAll_cases (e : Equality K) {config : Config} (usable : config.validate = .ok ())
    (word : config.initialBuckets ≤ Text.wordMax) (pairs : List (K × V)) :
    (∃ l, (empty e config.initialBuckets).pushAll pairs = .ok l ∧
        l.Mirrors e (Listing.pushAll e [] pairs)) ∨
      ∃ n, Excess config pairs.length n ∧
        (empty e config.initialBuckets : Lookup K V).pushAll pairs = .error (.capacityOverflow n) := by
  have mirrors := insertAll_mirrors e (Config.validate_eq_ok_iff.1 usable).1 pairs
  rcases pushAll_cases (empty e config.initialBuckets) pairs (by rwa [bucketCount_empty]) with
    done | ⟨n, more, bound, excess, failed⟩
  · exact Or.inl ⟨_, done, mirrors⟩
  · have count := Listing.length_pushAll_le e [] pairs
    rw [bucketCount_empty] at more
    rw [mirrors.size_eq] at bound
    rw [List.length_nil, Nat.zero_add] at count
    exact Or.inr ⟨n, ⟨more, Nat.le_trans bound count, excess⟩, failed⟩

/-- **A built lookup is its list of groups**, unless there are too many of them. -/
theorem build_cases (e : Equality K) {config : Config} (usable : config.validate = .ok ())
    (word : config.initialBuckets ≤ Text.wordMax) (xs : List α) (key : α → K) (element : α → V) :
    (∃ l, build e config xs key element = .ok l ∧
        l.Mirrors e (Listing.pushAll e [] (xs.map fun x => (key x, element x)))) ∨
      ∃ n, Excess config xs.length n ∧
        build e config xs key element = .error (.capacityOverflow n) := by
  have filled := empty_pushAll_cases e usable word (xs.map fun x => (key x, element x))
  rwa [← build_eq_pushAll e usable, List.length_map] at filled

end Lookup

end Collate
