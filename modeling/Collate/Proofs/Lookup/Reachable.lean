import Collate.Proofs.Lookup.Filling

/-!
# Lookups that pushes make

Pushes onto an empty lookup keep its table in order, whatever the equality does: each number has
its link, the chain of a bucket runs down through the numbers filed there and ends, and there are
at least as many buckets as groups (`Sound`). So a search asks for no place that is not there, and
comes to an end.
-/

set_option autoImplicit false

namespace Collate

namespace Lookup

variable {K V : Type} {e : Equality K} {buckets : Nat} {l : Lookup K V}

/-- The lookups that pushes make of an empty one with so many buckets. -/
inductive Reachable (e : Equality K) (buckets : Nat) : Lookup K V → Prop where
  | empty (positive : 1 ≤ buckets) (word : buckets ≤ Text.wordMax) : Reachable e buckets (.empty e buckets)
  | push {l l' : Lookup K V} {key : K} {value : V} (reached : Reachable e buckets l)
      (pushed : l.push key value = .ok l') : Reachable e buckets l'

/-- A search from a link on: it reads group after group, up to the first that answers or to the end
of the links. -/
inductive Search (l : Lookup K V) (query : K) (hash : Nat) : Option Nat → Option Nat → Prop where
  | ended : Search l query hash none none
  | found {id : Nat} {g : Group K V} (group : l.groups[id]? = some g)
      (answer : answers l.equality hash query g = true) : Search l query hash (some id) (some id)
  | passed {id : Nat} {g : Group K V} {link result : Option Nat} (group : l.groups[id]? = some g)
      (silent : answers l.equality hash query g = false) (next : l.chains.next[id]? = some link)
      (rest : Search l query hash link result) : Search l query hash (some id) result

/-- The table of a lookup leads to all groups and nowhere else. -/
structure Sound (e : Equality K) (l : Lookup K V) : Prop where
  equality : l.equality = e
  links : l.chains.next.size = l.size
  stored : ∀ g ∈ l.groups, g.hash < 0x80000000 ∧ g.hash = (e.hash g.key &&& 0x7FFFFFFF).toNat
  buckets : 0 < l.bucketCount
  chained : ∀ bucket < l.bucketCount, ∃ ids, Chains.Linked l.chains.next (l.chains.head bucket) ids ∧
    ids.Pairwise (· > ·) ∧ ∀ id, id ∈ ids ↔ ∃ g, l.groups[id]? = some g ∧ g.hash % l.bucketCount = bucket
  fits : l.size ≤ l.bucketCount
  inhabited : ∀ g ∈ l.groups, g.elements ≠ #[]
  searched : ∀ query hash, ∃ head, l.chains.heads[hash % l.bucketCount]? = some head ∧
    l.Search query hash head (l.find? query hash)

/-- What pushes make are insertions. -/
theorem Reachable.exists_insertAll (reached : Reachable e buckets l) :
    1 ≤ buckets ∧ ∃ pairs, l = (Lookup.empty e buckets).insertAll pairs := by
  induction reached with
  | empty positive word => exact ⟨positive, [], rfl⟩
  | @push _ _ key value reached pushed ih =>
    obtain ⟨positive, pairs, rfl⟩ := ih
    obtain ⟨-, rfl⟩ := push_eq_ok_iff.1 pushed
    exact ⟨positive, pairs ++ [(key, value)], (insertAll_append _ pairs [(key, value)]).symm⟩

theorem Reachable.pushAll {l' : Lookup K V} {pairs : List (K × V)} (reached : Reachable e buckets l)
    (pushed : l.pushAll pairs = .ok l') : Reachable e buckets l' := by
  induction pairs generalizing l with
  | nil =>
    obtain rfl := Except.ok.inj pushed
    exact reached
  | cons p pairs ih =>
    rw [Lookup.pushAll, List.foldlM_cons] at pushed
    cases first : l.push p.1 p.2 with
    | error fault =>
      rw [first] at pushed
      cases pushed
    | ok next =>
      rw [first] at pushed
      exact ih (reached.push first) pushed

/-- A chain of numbers that have groups is searched to the first that answers. -/
theorem search_of_linked {query : K} {hash : Nat} {link : Option Nat} {ids : List Nat}
    (linked : Chains.Linked l.chains.next link ids) (inside : ∀ id ∈ ids, ∃ g, l.groups[id]? = some g) :
    l.Search query hash link (ids.find? fun id =>
      match l.groups[id]? with
      | some g => answers l.equality hash query g
      | none => false) := by
  induction ids generalizing link with
  | nil =>
    rw [show link = none from linked]
    exact .ended
  | cons id ids ih =>
    obtain ⟨rfl, bound, rest⟩ := linked
    obtain ⟨g, group⟩ := inside id List.mem_cons_self
    have next := Array.getElem?_eq_getElem bound
    rw [next] at rest
    have onward := ih rest fun id member => inside id (List.mem_cons_of_mem _ member)
    rw [List.find?_cons, group]
    dsimp only
    split
    · next answer => exact .found group answer
    · next silent => exact .passed group silent next onward

theorem mem_members_iff {bucket id : Nat} :
    id ∈ Chains.members l.bucketCount (l.groups.toList.map Group.hash) bucket ↔
      ∃ g, l.groups[id]? = some g ∧ g.hash % l.bucketCount = bucket := by
  simp only [Chains.mem_members, List.getElem?_map, Array.getElem?_toList, Option.map_eq_some_iff]
  constructor
  · rintro ⟨-, ⟨g, found, rfl⟩, same⟩
    exact ⟨g, found, same⟩
  · rintro ⟨g, found, same⟩
    exact ⟨g.hash, ⟨g, found, rfl⟩, same⟩

/-- The search for a hash starts in a bucket that is there and comes to an end. -/
theorem Coherent.searched (coherent : l.Coherent) (query : K) (hash : Nat) :
    ∃ head, l.chains.heads[hash % l.bucketCount]? = some head ∧
      l.Search query hash head (l.find? query hash) := by
  have bound : hash % l.bucketCount < l.chains.bucketCount := Nat.mod_lt _ coherent.buckets
  have found := Array.getElem?_eq_getElem (show hash % l.bucketCount < l.chains.heads.size from bound)
  have linked := coherent.files.linked _ bound
  rw [Chains.head, found] at linked
  refine ⟨_, found, ?_⟩
  rw [find?, coherent.files.chain_eq bound]
  refine search_of_linked linked fun id member => ?_
  obtain ⟨g, group, -⟩ := mem_members_iff.1 member
  exact ⟨g, group⟩

/-- **The table of a lookup is sound** in every state that pushes reach from an empty one. -/
theorem reachable_sound (reached : Reachable e buckets l) : l.Sound e := by
  obtain ⟨positive, pairs, rfl⟩ := reached.exists_insertAll
  obtain ⟨coherent, equality, groups⟩ := (coherent_empty (V := V) e positive).insertAll pairs
  have counted := bucketCount_insertAll (V := V) e buckets pairs
  generalize (Lookup.empty e buckets).insertAll pairs = l at coherent equality groups counted ⊢
  have member {g : Group K V} : g ∈ l.groups → g ∈ Listing.pushAll e [] pairs := by
    rw [← Array.mem_toList_iff, groups]
    exact id
  refine ⟨equality, ?_, ?_, coherent.buckets, ?_, ?_, ?_, coherent.searched⟩
  · rw [coherent.files.size, List.length_map, Array.length_toList, size]
  · intro g inside
    obtain ⟨stored, -⟩ := Listing.pushAll_filed e pairs g (member inside)
    rw [stored]
    exact ⟨e.storedHash_lt g.key, e.storedHash_eq_mask g.key⟩
  · intro bucket bound
    exact ⟨_, coherent.files.linked bucket bound, Chains.pairwise_members _ _ _, fun id => mem_members_iff⟩
  · rw [counted]
    exact le_bucketsFor buckets l.size
  · intro g inside
    exact Listing.pushAll_inhabited e pairs g (member inside)

/-- Two groups, the table grown to five buckets: the search for the key 3 meets the newer one first. -/
theorem reachable_sound_neighbours :
    ∃ l : Lookup Nat Nat, Reachable neighbours 1 l ∧ l.Sound neighbours ∧ l.bucketCount = 5 ∧
      l.chains = ⟨#[some 1, none, none, none, none], #[none, some 0]⟩ ∧ l.find? 3 0 = some 1 := by
  have pushed : (empty neighbours 1).pushAll [(2, 20), (4, 40), (3, 30)] =
      .ok ((empty neighbours 1).insertAll [(2, 20), (4, 40), (3, 30)]) := by rfl
  have reached := (Reachable.empty (by decide) (by decide)).pushAll pushed
  exact ⟨_, reached, reachable_sound reached, rfl, rfl, rfl⟩

end Lookup

end Collate
