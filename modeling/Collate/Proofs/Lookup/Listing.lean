import Collate.Proofs.Lookup.Growth

/-!
# Lookups as plain lists of groups

The table of a lookup decides how fast a group is found, and nothing else: a lookup holds the
groups, and gives the answers, of a plain list that is searched from its newest group to its
oldest (`Listing`). The list knows of an equality its test and its hash alone, and keeps of a hash
the low 31 bits. This asks no law of the equality, so it says which group is found even where
several answer. The bucket count and the times of rehashing are nowhere in the list.
-/

set_option autoImplicit false

namespace Collate

/-- The stored hash is the low 31 bits of the hash. -/
theorem Equality.storedHash_eq_mask {K : Type} (e : Equality K) (key : K) :
    e.storedHash key = (e.hash key &&& 0x7FFFFFFF).toNat := by
  rw [storedHash, UInt64.toNat_and]
  exact (Nat.and_two_pow_sub_one_eq_mod _ 31).symm

namespace Listing

variable {K V : Type} (e : Equality K)

/-- The place of the newest group that is kept under the low 31 bits of the query's hash and whose
key equals the query. -/
def place? (groups : List (Group K V)) (query : K) : Option Nat :=
  (groups.zipIdx.reverse.find? fun p =>
    p.1.hash == (e.hash query &&& 0x7FFFFFFF).toNat && e.equals p.1.key query).map Prod.snd

/-- The newest group that answers a query. -/
def group? (groups : List (Group K V)) (query : K) : Option (Group K V) :=
  (place? e groups query).bind fun place => groups[place]?

/-- The elements under a key; none if no group answers it. -/
def get (groups : List (Group K V)) (query : K) : Array V :=
  match group? e groups query with
  | some g => g.elements
  | none => #[]

/-- An element put under a key: behind those of the newest group that answers, or alone into a
group at the end, which is kept under the low 31 bits of the key's hash. -/
def push (groups : List (Group K V)) (key : K) (value : V) : List (Group K V) :=
  match place? e groups key with
  | some place => groups.modify place fun g => { g with elements := g.elements.push value }
  | none => groups ++ [⟨key, (e.hash key &&& 0x7FFFFFFF).toNat, #[value]⟩]

/-- The items put in one after the other. -/
def pushAll (groups : List (Group K V)) (pairs : List (K × V)) : List (Group K V) :=
  pairs.foldl (fun groups p => push e groups p.1 p.2) groups

/-- The list is searched by the test that a lookup searches its chains by. -/
theorem place?_eq (groups : List (Group K V)) (query : K) :
    place? e groups query =
      (groups.zipIdx.reverse.find? fun p => Lookup.answers e (e.storedHash query) query p.1).map Prod.snd := by
  rw [e.storedHash_eq_mask]
  rfl

/-- A new group stands at the end under its stored hash. -/
theorem push_eq (groups : List (Group K V)) (key : K) (value : V) :
    push e groups key value =
      match place? e groups key with
      | some place => groups.modify place fun g => { g with elements := g.elements.push value }
      | none => groups ++ [⟨key, e.storedHash key, #[value]⟩] := by
  rw [e.storedHash_eq_mask]
  rfl

/-- Searching places from the last one on is searching the list from its end. -/
theorem find?_places {α : Type} (xs : List α) (p : α → Bool) :
    ((List.range xs.length).reverse.find? fun place => (xs[place]?).any p) =
      (xs.zipIdx.reverse.find? fun y => p y.1).map Prod.snd := by
  have places : List.range xs.length = xs.zipIdx.map Prod.snd := by
    rw [List.zipIdx_map_snd, List.range_eq_range']
  rw [places, ← List.map_reverse, List.find?_map, ← List.head?_filter, ← List.head?_filter]
  congr 2
  apply List.filter_congr
  intro y member
  have found := List.mem_zipIdx_iff_getElem?.1 (List.mem_reverse.1 member)
  simp [found]

end Listing

namespace Lookup

variable {K V : Type}

/-- The table of a lookup files its groups under their hashes, in at least one bucket. -/
structure Coherent (l : Lookup K V) : Prop where
  files : l.chains.Files (l.groups.toList.map Group.hash)
  buckets : 0 < l.bucketCount

theorem coherent_empty (equality : Equality K) {buckets : Nat} (some : 0 < buckets) :
    (empty equality buckets : Lookup K V).Coherent where
  files := Chains.files_empty buckets
  buckets := by simpa [empty, bucketCount, Chains.empty, Chains.bucketCount] using some

/-- A search through the chain of a bucket finds what a search through all groups finds. -/
theorem Coherent.indexOf?_eq {l : Lookup K V} (coherent : l.Coherent) (query : K) :
    l.indexOf? query = Listing.place? l.equality l.groups.toList query := by
  have bound : l.equality.storedHash query % l.bucketCount < l.chains.bucketCount :=
    Nat.mod_lt _ coherent.buckets
  have listed := Listing.find?_places l.groups.toList (answers l.equality (l.equality.storedHash query) query)
  rw [Listing.place?_eq, ← listed, indexOf?, find?, coherent.files.chain_eq bound, Chains.members,
    List.find?_filter, List.length_map]
  congr 1
  funext id
  rw [List.getElem?_map, Array.getElem?_toList]
  cases l.groups[id]? with
  | none => simp
  | some g =>
    -- a group that answers has the query's hash, so it stands in the query's bucket
    cases own : answers l.equality (l.equality.storedHash query) query g with
    | false => simp [own]
    | true =>
      have same : g.hash = l.equality.storedHash query := by
        simp only [answers, Bool.and_eq_true, beq_iff_eq] at own
        exact own.1
      simp [own, same, bucketCount]

theorem groups_create (l : Lookup K V) (key : K) (hash : Nat) (value : V) :
    (l.create key hash value).groups = l.groups.push ⟨key, hash, #[value]⟩ := by
  unfold create rehash
  dsimp only
  split <;> rfl

theorem equality_insert (l : Lookup K V) (key : K) (value : V) :
    (l.insert key value).equality = l.equality := by
  unfold insert append create rehash
  dsimp only
  split
  · rfl
  · split <;> rfl

/-- One more element in a group leaves all hashes as they are. -/
theorem map_hash_modify (groups : List (Group K V)) (place : Nat) (value : V) :
    (groups.modify place fun g => { g with elements := g.elements.push value }).map Group.hash =
      groups.map Group.hash := by
  apply List.ext_getElem?
  intro i
  rw [List.getElem?_map, List.getElem?_modify, List.getElem?_map]
  cases groups[i]? with
  | none => rfl
  | some g => by_cases same : place = i <;> simp [same]

theorem Coherent.append {l : Lookup K V} (coherent : l.Coherent) (place : Nat) (value : V) :
    (l.append place value).Coherent where
  files := by
    rw [Lookup.append, Array.toList_modify, map_hash_modify]
    exact coherent.files
  buckets := coherent.buckets

theorem Coherent.create {l : Lookup K V} (coherent : l.Coherent) (key : K) (hash : Nat) (value : V) :
    (l.create key hash value).Coherent := by
  have filed : (l.chains.file hash).Files ((l.groups.push ⟨key, hash, #[value]⟩).toList.map Group.hash) := by
    rw [Array.toList_push, List.map_append]
    exact coherent.files.file hash
  unfold Lookup.create rehash
  dsimp only
  split
  · exact ⟨Chains.files_ofHashes _ _, by simp [bucketCount, Chains.bucketCount_ofHashes]⟩
  · exact ⟨filed, by simpa [bucketCount] using coherent.buckets⟩

theorem Coherent.insert {l : Lookup K V} (coherent : l.Coherent) (key : K) (value : V) :
    (l.insert key value).Coherent := by
  unfold Lookup.insert
  dsimp only
  split
  · exact coherent.append _ value
  · exact coherent.create key _ value

/-- Inserting into a lookup is pushing onto its list of groups. -/
theorem Coherent.groups_insert {l : Lookup K V} (coherent : l.Coherent) (key : K) (value : V) :
    (l.insert key value).groups.toList = Listing.push l.equality l.groups.toList key value := by
  have place := coherent.indexOf?_eq key
  rw [Listing.push_eq, Lookup.insert, ← place, indexOf?]
  cases l.find? key (l.equality.storedHash key) with
  | none => simp [groups_create]
  | some index => simp [Lookup.append]

/-- What holds of one insertion holds of all of them. -/
theorem Coherent.insertAll {l : Lookup K V} (coherent : l.Coherent) (pairs : List (K × V)) :
    (l.insertAll pairs).Coherent ∧ (l.insertAll pairs).equality = l.equality ∧
      (l.insertAll pairs).groups.toList = Listing.pushAll l.equality l.groups.toList pairs := by
  induction pairs generalizing l with
  | nil => exact ⟨coherent, rfl, rfl⟩
  | cons p pairs ih =>
    obtain ⟨coherent', equality', groups'⟩ := ih (coherent.insert p.1 p.2)
    rw [equality_insert] at equality' groups'
    rw [coherent.groups_insert] at groups'
    exact ⟨coherent', equality', groups'⟩

/-- A lookup holds the groups of a plain list and gives its answers. -/
structure Mirrors (e : Equality K) (l : Lookup K V) (listing : List (Group K V)) : Prop where
  groups : l.groups.toList = listing
  indexOf? : ∀ query, l.indexOf? query = Listing.place? e listing query
  group? : ∀ query, l.group? query = Listing.group? e listing query
  get : ∀ query, l.get query = Listing.get e listing query
  contains : ∀ query, l.contains query = (Listing.group? e listing query).isSome
  groupAt? : ∀ place, l.groupAt? place = listing[place]?

theorem Coherent.mirrors {l : Lookup K V} (coherent : l.Coherent) :
    l.Mirrors l.equality l.groups.toList := by
  have reads : ∀ place, l.groupAt? place = l.groups.toList[place]? := by simp [groupAt?]
  have group : ∀ query, l.group? query = Listing.group? l.equality l.groups.toList query := by
    intro query
    rw [Lookup.group?, Listing.group?, coherent.indexOf?_eq query]
    congr 1
    funext place
    exact reads place
  refine ⟨rfl, coherent.indexOf?_eq, group, ?_, ?_, reads⟩
  · intro query
    cases found : Listing.group? l.equality l.groups.toList query <;>
      simp [Lookup.get, Listing.get, group query, found]
  · intro query
    rw [Lookup.contains, group query]

theorem Mirrors.size_eq {l : Lookup K V} {e : Equality K} {listing : List (Group K V)}
    (mirrors : l.Mirrors e listing) : l.size = listing.length := by
  rw [size, ← Array.length_toList, mirrors.groups]

/-- Insertions into an empty lookup mirror the same pushes onto the empty list. -/
theorem insertAll_mirrors (e : Equality K) {buckets : Nat} (some : 1 ≤ buckets) (pairs : List (K × V)) :
    ((empty e buckets).insertAll pairs).Mirrors e (Listing.pushAll e [] pairs) := by
  obtain ⟨coherent, equality, groups⟩ := (coherent_empty (V := V) e some).insertAll pairs
  have mirrors := coherent.mirrors
  rwa [equality, groups] at mirrors

/-- **A lookup is its list of groups.** Whatever the equality does and whatever the bucket count
is, pushes onto an empty lookup give the lookup that mirrors the same pushes onto the empty list,
unless one of them needs more buckets than a machine word can count. -/
theorem pushAll_mirrors (e : Equality K) {buckets : Nat} (some : 1 ≤ buckets)
    (word : buckets ≤ Text.wordMax) (pairs : List (K × V)) :
    (∃ l, (empty e buckets).pushAll pairs = .ok l ∧ l.Mirrors e (Listing.pushAll e [] pairs)) ∨
      ∃ n, buckets < n ∧ n ≤ (Listing.pushAll e [] pairs).length ∧ Text.wordMax < 2 * n + 1 ∧
        (empty e buckets : Lookup K V).pushAll pairs = .error (.capacityOverflow n) := by
  have mirrors := insertAll_mirrors e some pairs
  rcases pushAll_cases (empty e buckets) pairs (by rwa [bucketCount_empty]) with
    done | ⟨n, more, bound, excess, failed⟩
  · exact Or.inl ⟨_, done, mirrors⟩
  · rw [bucketCount_empty] at more
    rw [mirrors.size_eq] at bound
    exact Or.inr ⟨n, more, bound, excess, failed⟩

/-- A key equals every query from it on up. Hashes tell odd from even in their low bits, and every
number from every other in bits that are not kept. -/
def upwards : Equality Nat := ⟨fun key query => decide (key ≤ query), fun n => (n % 2 + 1 + n * 0x80000000).toUInt64⟩

/-- The keys 4 and 2 both equal the query 6, whose element joins the newer one. The key 5 equals it too
but has another hash, and the key 3 would equal the query 5 and not the other way round. -/
theorem pushAll_mirrors_upwards :
    1 ≤ 1 ∧ 1 ≤ Text.wordMax ∧
      ∃ l, (empty upwards 1).pushAll [(4, 40), (5, 50), (2, 20), (6, 60)] = .ok l ∧
        l.groups.toList = [⟨4, 1, #[40]⟩, ⟨5, 2, #[50]⟩, ⟨2, 1, #[20, 60]⟩] ∧
        (l.indexOf? 8 = some 2 ∧ l.indexOf? 7 = some 1 ∧ l.indexOf? 3 = none) ∧
        upwards.hash 6 = 0x300000001 := by
  refine ⟨by decide, by decide, ?_⟩
  rcases pushAll_mirrors upwards (by decide : 1 ≤ 1) (by decide) [(4, 40), (5, 50), (2, 20), (6, 60)] with
    ⟨l, done, mirrors⟩ | ⟨n, -, bound, excess, -⟩
  · refine ⟨l, done, mirrors.groups.trans (by decide), ⟨?_, ?_, ?_⟩, by decide⟩
    · exact (mirrors.indexOf? 8).trans (by decide)
    · exact (mirrors.indexOf? 7).trans (by decide)
    · exact (mirrors.indexOf? 3).trans (by decide)
  · have length : (Listing.pushAll upwards [] [(4, 40), (5, 50), (2, 20), (6, 60)]).length = 3 := by decide
    have : Text.wordMax = 0xFFFFFFFFFFFFFFFF := rfl
    omega

/-- Numbers at most one apart are equal; the hash tells nothing. No equivalence. -/
def neighbours : Equality Nat := ⟨fun a b => decide (a ≤ b + 1 ∧ b ≤ a + 1), fun _ => 0⟩

end Lookup

end Collate
