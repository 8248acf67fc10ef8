import Collate.Proofs.Comparer.Tolerance
import Collate.Proofs.Lookup.Filling
import Mathlib.Algebra.GroupWithZero.Nat

/-!
# Groups as a partition of what is filed

Each pair that is pushed onto a list of groups joins a group or founds one, and this seat is its
for good. A seat is never taken by a key that the group's key does not equal, and a group is only
founded by a key that none of the groups before it equals, so that no two groups have equal keys.
None of this needs equality to be transitive: it is enough that equal keys have one hash. With
transitivity, two keys have one seat exactly if they are equal.
-/

set_option autoImplicit false

namespace Collate.Listing

variable {K V α : Type} {e : Equality K} {S : K → Prop}

theorem getElem?_append_singleton_eq_some_iff {l : List α} {x y : α} {i : Nat} :
    (l ++ [x])[i]? = some y ↔ l[i]? = some y ∨ i = l.length ∧ x = y := by
  rcases Nat.lt_trichotomy i l.length with less | rfl | greater
  · rw [List.getElem?_append_left less]
    constructor
    · exact Or.inl
    · rintro (here | ⟨last, -⟩)
      · exact here
      · omega
  · simp
  · rw [List.getElem?_eq_none (by simp; omega), List.getElem?_eq_none (by omega)]
    constructor
    · intro here
      cases here
    · rintro (here | ⟨last, -⟩)
      · cases here
      · omega

/-! ## Seats -/

/-- Each key in a row has a seat, at a head that it equals. No two heads are equal, and a head is
the first key at its seat, behind the first keys of all seats before. -/
structure Seating (e : Equality K) (keys : List K) (seats : List Nat) (heads : List K) : Prop where
  assigned : seats.length = keys.length
  equal : ∀ (i : Nat) k s, keys[i]? = some k → seats[i]? = some s → ∃ h, heads[s]? = some h ∧ e.equals h k = true
  apart : heads.Pairwise fun g h => e.equals g h = false
  founded : ∀ (s : Nat) h, heads[s]? = some h →
    ∃ i : Nat, keys[i]? = some h ∧ seats[i]? = some s ∧ ∀ j t, j < i → seats[j]? = some t → t < s

namespace Seating

variable {keys heads : List K} {seats : List Nat} {k h : K} {s : Nat}

theorem nil (e : Equality K) : Seating e [] [] [] where
  assigned := rfl
  equal := by simp
  apart := List.Pairwise.nil
  founded := by simp

theorem seat_lt (seating : Seating e keys seats heads) {i : Nat} (seat : seats[i]? = some s) :
    s < heads.length := by
  obtain ⟨bound, -⟩ := List.getElem?_eq_some_iff.1 seat
  rw [seating.assigned] at bound
  obtain ⟨h, here, -⟩ := seating.equal i keys[i] s (List.getElem?_eq_getElem bound) seat
  exact (List.getElem?_eq_some_iff.1 here).1

/-- What a head is founded by stays where it is when one more key comes behind. -/
theorem founded_append (seating : Seating e keys seats heads) (here : heads[s]? = some h) (k : K) (t : Nat) :
    ∃ i : Nat, (keys ++ [k])[i]? = some h ∧ (seats ++ [t])[i]? = some s ∧
      ∀ j u, j < i → (seats ++ [t])[j]? = some u → u < s := by
  obtain ⟨i, key, seat, before⟩ := seating.founded s h here
  simp only [getElem?_append_singleton_eq_some_iff]
  refine ⟨i, Or.inl key, Or.inl seat, ?_⟩
  rintro j u less (seat' | ⟨last, -⟩)
  · exact before j u less seat'
  · have := (List.getElem?_eq_some_iff.1 seat).1
    omega

/-- One more key takes the seat of a head that it equals. -/
theorem join (seating : Seating e keys seats heads) (here : heads[s]? = some h)
    (same : e.equals h k = true) : Seating e (keys ++ [k]) (seats ++ [s]) heads where
  assigned := by simp [seating.assigned]
  equal := by
    intro i k' s' key seat
    have count := seating.assigned
    rw [getElem?_append_singleton_eq_some_iff] at key seat
    rcases key with key | ⟨last, rfl⟩ <;> rcases seat with seat | ⟨last', rfl⟩
    · exact seating.equal i k' s' key seat
    · have := (List.getElem?_eq_some_iff.1 key).1
      omega
    · have := (List.getElem?_eq_some_iff.1 seat).1
      omega
    · exact ⟨h, here, same⟩
  apart := seating.apart
  founded := fun s' h here => seating.founded_append here k s

/-- One more key that no head equals is a head itself. -/
theorem found (seating : Seating e keys seats heads) (self : e.equals k k = true)
    (silent : ∀ h ∈ heads, e.equals h k = false) :
    Seating e (keys ++ [k]) (seats ++ [heads.length]) (heads ++ [k]) where
  assigned := by simp [seating.assigned]
  equal := by
    intro i k' s' key seat
    have count := seating.assigned
    rw [getElem?_append_singleton_eq_some_iff] at key seat
    simp only [getElem?_append_singleton_eq_some_iff]
    rcases key with key | ⟨last, rfl⟩ <;> rcases seat with seat | ⟨last', rfl⟩
    · obtain ⟨h, here, same⟩ := seating.equal i k' s' key seat
      exact ⟨h, Or.inl here, same⟩
    · have := (List.getElem?_eq_some_iff.1 key).1
      omega
    · have := (List.getElem?_eq_some_iff.1 seat).1
      omega
    · exact ⟨k, Or.inr ⟨rfl, rfl⟩, self⟩
  apart := by
    rw [List.pairwise_append]
    refine ⟨seating.apart, List.pairwise_singleton _ _, ?_⟩
    intro h member k' single
    rw [List.mem_singleton.1 single]
    exact silent h member
  founded := by
    intro s h here
    rw [getElem?_append_singleton_eq_some_iff] at here
    rcases here with here | ⟨rfl, rfl⟩
    · exact seating.founded_append here k heads.length
    · simp only [getElem?_append_singleton_eq_some_iff]
      refine ⟨keys.length, Or.inr ⟨rfl, trivial⟩, Or.inr ⟨seating.assigned.symm, trivial⟩, ?_⟩
      rintro j t less (seat | ⟨last, -⟩)
      · exact seating.seat_lt seat
      · have := seating.assigned
        omega

theorem head_mem (seating : Seating e keys seats heads) (here : heads[s]? = some h) : h ∈ keys := by
  obtain ⟨i, key, -⟩ := seating.founded s h here
  exact List.mem_of_getElem? key

/-- Two heads that are equal are one. -/
theorem seat_unique (seating : Seating e keys seats heads) (laws : e.ToleranceOn S) (inside : ∀ k ∈ keys, S k)
    {t : Nat} {g : K} (here : heads[s]? = some g) (there : heads[t]? = some h)
    (same : e.equals g h = true) : s = t := by
  have gIn := inside g (seating.head_mem here)
  have hIn := inside h (seating.head_mem there)
  obtain ⟨sBound, rfl⟩ := List.getElem?_eq_some_iff.1 here
  obtain ⟨tBound, rfl⟩ := List.getElem?_eq_some_iff.1 there
  have apart := List.pairwise_iff_getElem.1 seating.apart
  rcases Nat.lt_trichotomy s t with less | one | greater
  · rw [apart s t sBound tBound less] at same
    cases same
  · exact one
  · have same := laws.symm _ _ gIn hIn same
    rw [apart t s tBound sBound greater] at same
    cases same

/-- Where equality is an equivalence, two keys have one seat exactly if they are equal. -/
theorem seat_eq_iff (seating : Seating e keys seats heads) (laws : e.LawfulOn S) (inside : ∀ k ∈ keys, S k)
    {i j s t : Nat} {a b : K} (aKey : keys[i]? = some a) (bKey : keys[j]? = some b)
    (aSeat : seats[i]? = some s) (bSeat : seats[j]? = some t) : s = t ↔ e.equals a b = true := by
  have aIn := inside a (List.mem_of_getElem? aKey)
  have bIn := inside b (List.mem_of_getElem? bKey)
  obtain ⟨g, aHead, ga⟩ := seating.equal i a s aKey aSeat
  obtain ⟨h, bHead, hb⟩ := seating.equal j b t bKey bSeat
  have gIn := inside g (seating.head_mem aHead)
  have hIn := inside h (seating.head_mem bHead)
  constructor
  · rintro rfl
    obtain rfl : g = h := Option.some.inj (aHead.symm.trans bHead)
    exact laws.trans a g b aIn gIn bIn (laws.symm g a gIn aIn ga) hb
  · intro ab
    have gb := laws.trans g a b gIn aIn bIn ga ab
    have gh := laws.trans g b h gIn bIn hIn gb (laws.symm h b hIn bIn hb)
    exact seating.seat_unique laws.toToleranceOn inside aHead bHead gh

end Seating

/-! ## Groups -/

/-- The elements of the pairs at a seat. -/
def seated (pairs : List (K × V)) (seats : List Nat) (s : Nat) : List V :=
  ((pairs.zip seats).filter fun x => x.2 == s).map fun x => x.1.2

theorem seated_append {pairs : List (K × V)} {seats : List Nat} (assigned : seats.length = pairs.length)
    (p : K × V) (s t : Nat) :
    seated (pairs ++ [p]) (seats ++ [t]) s = seated pairs seats s ++ if t = s then [p.2] else [] := by
  rw [seated, List.zip_append assigned.symm, List.filter_append, List.map_append, seated]
  by_cases same : t = s <;> simp [same]

theorem map_key_modify (groups : List (Group K V)) (place : Nat) (value : V) :
    (groups.modify place fun g => { g with elements := g.elements.push value }).map Group.key =
      groups.map Group.key := by
  apply List.ext_getElem?
  intro i
  rw [List.getElem?_map, List.getElem?_modify, List.getElem?_map]
  cases groups[i]? with
  | none => rfl
  | some g => by_cases same : place = i <;> simp [same]

/-- Nothing is at a seat that is not taken. -/
theorem seated_eq_nil {pairs : List (K × V)} {seats : List Nat} {s : Nat} (free : ∀ t ∈ seats, t ≠ s) :
    seated pairs seats s = [] := by
  rw [seated, List.map_eq_nil_iff, List.filter_eq_nil_iff]
  intro x member
  simp [free x.2 (List.of_mem_zip member).2]

/-- A key without a group is one that no group's key equals: an equal one would have its hash. -/
theorem silent_of_place?_eq_none (laws : e.ToleranceOn S) {pairs : List (K × V)} (inside : ∀ p ∈ pairs, S p.1)
    {k : K} (kIn : S k) (nowhere : place? e (pushAll e [] pairs) k = none) :
    ∀ h ∈ (pushAll e [] pairs).map Group.key, e.equals h k = false := by
  intro h member
  obtain ⟨g, known, rfl⟩ := List.mem_map.1 member
  obtain ⟨stored, q, pushed, key⟩ := pushAll_filed e pairs g known
  have gIn : S g.key := key ▸ inside q pushed
  rw [Bool.eq_false_iff]
  intro same
  have unanswered := place?_eq_none_iff.1 nowhere g known
  rw [Lookup.answers, stored, laws.storedHash_eq gIn kIn same, same] at unanswered
  simp at unanswered

/-- Every pair that is pushed has a seat, and a group holds the elements of the pairs at its seat. -/
theorem exists_seating (laws : e.ToleranceOn S) {pairs : List (K × V)} (inside : ∀ p ∈ pairs, S p.1) :
    ∃ seats, Seating e (pairs.map Prod.fst) seats ((pushAll e [] pairs).map Group.key) ∧
      ∀ (s : Nat) g, (pushAll e [] pairs)[s]? = some g → g.elements.toList = seated pairs seats s := by
  -- the last pair joins the group that answers its key, or founds one behind all others
  induction pairs using List.reverseRecOn with
  | nil => exact ⟨[], Seating.nil e, by simp [pushAll]⟩
  | append_singleton pairs p ih =>
    have before : ∀ q ∈ pairs, S q.1 := fun q member => inside q (List.mem_append_left _ member)
    obtain ⟨seats, seating, gathered⟩ := ih before
    have last : pushAll e [] (pairs ++ [p]) = push e (pushAll e [] pairs) p.1 p.2 := by
      rw [pushAll, List.foldl_append]
      rfl
    have pIn := inside p (by simp)
    have assigned : seats.length = pairs.length := by rw [seating.assigned, List.length_map]
    rw [last, push_eq, List.map_append]
    cases found : place? e (pushAll e [] pairs) p.1 with
    | some place =>
      obtain ⟨g, here, answers⟩ := answers_place? found
      have same : e.equals g.key p.1 = true := by
        simp only [Lookup.answers, Bool.and_eq_true] at answers
        exact answers.2
      refine ⟨seats ++ [place], ?_, ?_⟩
      · dsimp only
        rw [map_key_modify]
        exact seating.join (by rw [List.getElem?_map, here]; rfl) same
      · intro s g' there
        rw [List.getElem?_modify] at there
        obtain ⟨old, known, rfl⟩ := Option.map_eq_some_iff.1 there
        rw [seated_append assigned, ← gathered s old known]
        by_cases own : place = s <;> simp [own]
    | none =>
      have silent := silent_of_place?_eq_none laws before pIn found
      have free : ∀ t ∈ seats, t < (pushAll e [] pairs).length := by
        intro t member
        obtain ⟨i, seat⟩ := List.mem_iff_getElem?.1 member
        simpa using seating.seat_lt seat
      refine ⟨seats ++ [(pushAll e [] pairs).length], ?_, ?_⟩
      · simpa using seating.found (laws.refl p.1 pIn) silent
      · intro s g there
        rw [getElem?_append_singleton_eq_some_iff] at there
        rw [seated_append assigned]
        rcases there with known | ⟨rfl, rfl⟩
        · have bound := (List.getElem?_eq_some_iff.1 known).1
          rw [if_neg (by omega), List.append_nil]
          exact gathered s g known
        · rw [seated_eq_nil fun t member => Nat.ne_of_lt (free t member)]
          simp

theorem sum_sizes_modify {groups : List (Group K V)} {place : Nat} (bound : place < groups.length) (value : V) :
    ((groups.modify place fun g => { g with elements := g.elements.push value }).map
      fun g => g.elements.size).sum = (groups.map fun g => g.elements.size).sum + 1 := by
  induction groups generalizing place with
  | nil => cases bound
  | cons g groups ih =>
    cases place with
    | zero =>
      simp
      omega
    | succ place =>
      have rest := ih (Nat.lt_of_succ_lt_succ bound)
      simp only [List.modify_succ_cons, List.map_cons, List.sum_cons, rest]
      omega

/-- No element is lost and none comes twice. -/
theorem sum_sizes_pushAll (pairs : List (K × V)) :
    ((pushAll e [] pairs).map fun g => g.elements.size).sum = pairs.length := by
  induction pairs using List.reverseRecOn with
  | nil => rfl
  | append_singleton pairs p ih =>
    rw [pushAll, List.foldl_append]
    change ((push e (pushAll e [] pairs) p.1 p.2).map _).sum = _
    rw [List.length_append, List.length_singleton, ← ih]
    unfold push
    split
    · next place found =>
      obtain ⟨g, here, -⟩ := answers_place? found
      exact sum_sizes_modify (List.getElem?_eq_some_iff.1 here).1 p.2
    · simp

/-! ## Partitions -/

/-- Groups share out the items of a list, each item to the group at its seat. -/
structure StablePartition (e : Equality K) (key : α → K) (element : α → V) (items : List α)
    (seats : List Nat) (groups : List (Group K V)) : Prop where
  /-- Every item has a seat, at a group whose key its own key equals. -/
  assigned : seats.length = items.length
  equal : ∀ (i : Nat) x s, items[i]? = some x → seats[i]? = some s →
    ∃ g, groups[s]? = some g ∧ e.equals (key x) g.key = true
  /-- Groups with equal keys are one. -/
  apart : ∀ (s t : Nat) g h, groups[s]? = some g → groups[t]? = some h → e.equals g.key h.key = true → s = t
  /-- A group has the key of its first item, before which only seats of groups before are taken. -/
  founded : ∀ (s : Nat) g, groups[s]? = some g → ∃ (i : Nat) (x : α), items[i]? = some x ∧
    seats[i]? = some s ∧ g.key = key x ∧ ∀ j t, j < i → seats[j]? = some t → t < s
  /-- A group has the elements of its items, in order. -/
  gathered : ∀ (s : Nat) g, groups[s]? = some g →
    g.elements.toList = ((items.zip seats).filter fun x => x.2 == s).map fun x => element x.1
  inhabited : ∀ g ∈ groups, g.elements ≠ #[]
  total : (groups.map fun g => g.elements.size).sum = items.length

variable {key : α → K} {element : α → V} {items : List α}

theorem seated_map (seats : List Nat) (s : Nat) :
    seated (items.map fun x => (key x, element x)) seats s =
      ((items.zip seats).filter fun x => x.2 == s).map fun x => element x.1 := by
  rw [seated, List.zip_map_left, List.filter_map, List.map_map]
  rfl

/-- **Groups are a stable partition** of what is pushed, if on the keys that occur equality is
reflexive and symmetric and the hash respects it. If it is transitive on them too, two items have
one seat exactly if their keys are equal. -/
theorem exists_stablePartition (laws : e.ToleranceOn S) (key : α → K) (element : α → V) (inside : ∀ x ∈ items, S (key x)) :
    ∃ seats, StablePartition e key element items seats
        (pushAll e [] (items.map fun x => (key x, element x))) ∧
      ∀ T : K → Prop, e.LawfulOn T → (∀ x ∈ items, T (key x)) →
        ∀ (i j : Nat) x y, items[i]? = some x → items[j]? = some y →
          (seats[i]? = seats[j]? ↔ e.equals (key x) (key y) = true) := by
  have pairsInside : ∀ p ∈ items.map fun x => (key x, element x), S p.1 := by simpa using inside
  obtain ⟨seats, seating, gathered⟩ := exists_seating laws pairsInside
  have keys : (items.map fun x => (key x, element x)).map Prod.fst = items.map key := by simp
  rw [keys] at seating
  have keysInside : ∀ k ∈ items.map key, S k := by simpa using inside
  have assigned : seats.length = items.length := by rw [seating.assigned, List.length_map]
  have keyOf {i : Nat} {x : α} (item : items[i]? = some x) : (items.map key)[i]? = some (key x) := by
    rw [List.getElem?_map, item, Option.map_some]
  have headOf {s : Nat} {g : Group K V}
      (here : (pushAll e [] (items.map fun x => (key x, element x)))[s]? = some g) :
      ((pushAll e [] (items.map fun x => (key x, element x))).map Group.key)[s]? = some g.key := by
    rw [List.getElem?_map, here, Option.map_some]
  refine ⟨seats, ⟨assigned, ?_, ?_, ?_, ?_, pushAll_inhabited e _, ?_⟩, ?_⟩
  · intro i x s item seat
    obtain ⟨k, head, same⟩ := seating.equal i (key x) s (keyOf item) seat
    have kIn := keysInside k (seating.head_mem head)
    rw [List.getElem?_map] at head
    obtain ⟨g, here, rfl⟩ := Option.map_eq_some_iff.1 head
    exact ⟨g, here, laws.symm _ _ kIn (inside x (List.mem_of_getElem? item)) same⟩
  · intro s t g h here there same
    exact seating.seat_unique laws keysInside (headOf here) (headOf there) same
  · intro s g here
    obtain ⟨i, head, seat, before⟩ := seating.founded s g.key (headOf here)
    rw [List.getElem?_map] at head
    obtain ⟨x, item, same⟩ := Option.map_eq_some_iff.1 head
    exact ⟨i, x, item, seat, same.symm, before⟩
  · intro s g here
    rw [gathered s g here, seated_map]
  · rw [sum_sizes_pushAll, List.length_map]
  · intro T lawful covered i j x y item item'
    have inside' : ∀ k ∈ items.map key, T k := by simpa using covered
    have iBound : i < seats.length := assigned ▸ (List.getElem?_eq_some_iff.1 item).1
    have jBound : j < seats.length := assigned ▸ (List.getElem?_eq_some_iff.1 item').1
    have iSeat := List.getElem?_eq_getElem iBound
    have jSeat := List.getElem?_eq_getElem jBound
    rw [← seating.seat_eq_iff lawful inside' (keyOf item) (keyOf item') iSeat jSeat, iSeat, jSeat,
      Option.some.injEq]

end Collate.Listing
