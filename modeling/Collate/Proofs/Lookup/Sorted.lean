import Collate.Proofs.Lookup.Occurring
import Collate.Proofs.Sort.Ordered

/-!
# Groups of what is sorted

A stable sort keeps the items of a class as they stood, if it ties just the items of one class. So
every class has its first item and its elements before and after the sort, and only the order of
the classes changes, which is then that of their first items. No two of these tie, so sorting the
groups by their keys gives the same list.
-/

set_option autoImplicit false

namespace Collate

namespace Listing

variable {K V α : Type} {e : Equality K} {key : α → K} {element : α → V} {xs ys : List α}

/-- Of the items of a class the first is kept. -/
theorem filter_firsts (lawful : e.Lawful) (key : α → K) (xs : List α) (query : K) :
    (firsts e key xs).filter (fun x => e.equals query (key x)) =
      (xs.filter fun x => e.equals query (key x)).head?.toList := by
  induction xs using List.reverseRecOn with
  | nil => rfl
  | append_singleton xs x ih =>
    rw [firsts_append_singleton, List.filter_append]
    cases own : e.equals query (key x) with
    | false =>
      have alone : [x].filter (fun x => e.equals query (key x)) = [] := by simp [own]
      rw [alone, List.append_nil, ← ih]
      split
      · rfl
      · rw [List.filter_append, alone, List.append_nil]
    | true =>
      have alone : [x].filter (fun x => e.equals query (key x)) = [x] := by simp [own]
      rw [alone]
      split
      · next seen =>
        -- an item of the class stands before the last
        obtain ⟨first, known, equal⟩ := List.any_eq_true.1 seen
        have joins := lawful.trans _ _ _ own (lawful.symm _ _ equal)
        have before : first ∈ xs.filter fun x => e.equals query (key x) :=
          List.mem_filter.2 ⟨firsts_subset xs known, joins⟩
        rw [ih, List.head?_append_of_ne_nil _ (List.ne_nil_of_mem before)]
      · next fresh =>
        have nobody : xs.filter (fun x => e.equals query (key x)) = [] := by
          rw [List.filter_eq_nil_iff]
          intro y member joins
          obtain ⟨first, known, equal⟩ := exists_first lawful member
          have same := lawful.trans _ _ _ equal (lawful.trans _ _ _ (lawful.symm _ _ joins) own)
          exact fresh (List.any_eq_true.2 ⟨first, known, same⟩)
        rw [List.filter_append, ih, alone, nobody]
        rfl

/-- The items that are kept are those that are the first of their class. -/
theorem mem_firsts_iff (lawful : e.Lawful) {x : α} :
    x ∈ firsts e key xs ↔ (xs.filter fun y => e.equals (key x) (key y)).head? = some x := by
  have kept := filter_firsts lawful key xs (key x)
  constructor
  · intro member
    have own : x ∈ (firsts e key xs).filter fun y => e.equals (key x) (key y) :=
      List.mem_filter.2 ⟨member, lawful.refl _⟩
    rwa [kept, Option.mem_toList] at own
  · intro first
    rw [← Option.mem_toList, ← kept] at first
    exact (List.mem_filter.1 first).1

theorem nodup_firsts (lawful : e.Lawful) (xs : List α) : (firsts e key xs).Nodup := by
  refine (pairwise_firsts xs).imp ?_
  rintro x y apart rfl
  rw [lawful.refl] at apart
  cases apart

section Sorted

variable {rank : Comparison α} (ties : ∀ x ∈ xs, ∀ y ∈ xs, rank x y = .eq ↔ e.equals (key x) (key y) = true)
include ties

theorem tied_eq_filter {x : α} (member : x ∈ xs) {zs : List α} (inside : zs ⊆ xs) :
    Sort.tied rank x zs = zs.filter fun y => e.equals (key x) (key y) := by
  apply List.filter_congr
  intro y there
  rw [Bool.eq_iff_iff, decide_eq_true_iff]
  exact ties x member y (inside there)

variable (sorted : Sort.StablySorted rank xs ys)
include sorted

/-- The items of a class stand after a sort as they stood before. -/
theorem filter_sorted {x : α} (member : x ∈ xs) :
    ys.filter (fun y => e.equals (key x) (key y)) = xs.filter fun y => e.equals (key x) (key y) := by
  rw [← tied_eq_filter ties member sorted.perm.subset, sorted.ties x member,
    tied_eq_filter ties member (List.Subset.refl xs)]

theorem classOf_sorted {x : α} (member : x ∈ xs) :
    (classOf e key element ys x : Group K V) = classOf e key element xs x := by
  rw [classOf, classOf, filter_sorted ties sorted member]

/-- The first items of the classes come out of a sort as if only they had been sorted. -/
theorem stablySorted_firsts (lawful : e.Lawful) : Sort.StablySorted rank (firsts e key xs) (firsts e key ys) where
  perm := by
    rw [List.perm_ext_iff_of_nodup (nodup_firsts lawful ys) (nodup_firsts lawful xs)]
    intro x
    constructor
    · intro member
      have there := sorted.perm.mem_iff.1 (firsts_subset ys member)
      rwa [mem_firsts_iff lawful, filter_sorted ties sorted there, ← mem_firsts_iff lawful] at member
    · intro member
      have there := firsts_subset xs member
      rwa [mem_firsts_iff lawful, filter_sorted ties sorted there, ← mem_firsts_iff lawful]
  ordered := sorted.ordered.sublist (firsts_sublist ys)
  ties := by
    intro x member
    have there := firsts_subset xs member
    rw [tied_eq_filter ties there (List.Subset.trans (firsts_subset ys) sorted.perm.subset), filter_firsts lawful,
      tied_eq_filter ties there (firsts_subset xs), filter_firsts lawful, filter_sorted ties sorted there]

end Sorted

/-- **The groups of sorted items** are the sorted groups of the items. -/
theorem stablySorted_classes (lawful : e.Lawful) (cmp : Comparison K)
    (ties : ∀ x ∈ xs, ∀ y ∈ xs, cmp (key x) (key y) = .eq ↔ e.equals (key x) (key y) = true)
    (sorted : Sort.StablySorted (fun x y => cmp (key x) (key y)) xs ys) :
    Sort.StablySorted (fun g h => cmp g.key h.key) (classes e key element xs : List (Group K V))
      (classes e key element ys) := by
  have firsts := stablySorted_firsts ties sorted lawful
  have same : classes e key element ys = (Listing.firsts e key ys).map (classOf e key element xs : α → Group K V) := by
    apply List.map_congr_left
    intro x member
    exact classOf_sorted ties sorted (sorted.perm.mem_iff.1 (firsts_subset ys member))
  rw [same]
  exact Sort.StablySorted.map (classOf e key element xs) firsts

end Listing

namespace Lookup

variable {K V α : Type} {e : Equality K}

/-- Lookups of as many groups are built or fail alike. -/
theorem builds_alike {config : Config} (usable : config.validate = .ok ())
    (word : config.initialBuckets ≤ Text.wordMax) {xs ys : List α} {key : α → K} {element : α → V}
    (groups : (Listing.pushAll e [] (ys.map fun y => (key y, element y))).length =
      (Listing.pushAll e [] (xs.map fun x => (key x, element x))).length) :
    (∃ l l', build e config xs key element = .ok l ∧ build e config ys key element = .ok l' ∧
        l.Mirrors e (Listing.pushAll e [] (xs.map fun x => (key x, element x))) ∧
        l'.Mirrors e (Listing.pushAll e [] (ys.map fun y => (key y, element y)))) ∨
      ∃ n, Excess config xs.length n ∧ build e config xs key element = .error (.capacityOverflow n) ∧
        build e config ys key element = .error (.capacityOverflow n) := by
  have some := (Config.validate_eq_ok_iff.1 usable).1
  have mirrors := insertAll_mirrors e some (xs.map fun x => (key x, element x))
  have mirrors' := insertAll_mirrors e some (ys.map fun y => (key y, element y))
  have run := build_eq_pushAll e usable xs key element
  have run' := build_eq_pushAll e usable ys key element
  rw [empty_pushAll_eq e word] at run run'
  have sizes := mirrors.size_eq.trans (groups.symm.trans mirrors'.size_eq.symm)
  rcases held_alike config.initialBuckets sizes with ⟨fits, fits'⟩ | ⟨n, excess, excess'⟩
  · exact Or.inl ⟨_, _, run.trans fits, run'.trans fits', mirrors, mirrors'⟩
  · rcases build_cases e usable word xs key element with ⟨l, built, -⟩ | ⟨m, many, failed⟩
    · rw [run, excess] at built
      cases built
    · have failed' := failed
      rw [run, excess] at failed'
      obtain rfl : n = m := by
        cases failed'
        rfl
      exact Or.inr ⟨n, many, failed, run'.trans excess'⟩

section Sorted

variable {S : K → Prop} {cmp : Comparison K}

/-- **Sorting and grouping commute.** Where a comparison is a total preorder and ties just the keys
that are equal, grouping a sorted list gives the groups of the list itself, with their keys and
all their elements in order, and the groups stand as the stable sort by their keys has them. -/
theorem build_orderBy (laws : e.LawfulOn S) (order : cmp.TotalPreorderOn S)
    (ties : ∀ a b, S a → S b → (cmp a b = .eq ↔ e.equals a b = true)) {config : Config}
    (usable : config.validate = .ok ()) (word : config.initialBuckets ≤ Text.wordMax) (source : Source α)
    (key : α → K) (inside : ∀ x ∈ source.rest, S (key x)) (element : α → V) (direction : Direction) (sized : Bool) :
    (∃ l l', build e config source.rest key element = .ok l ∧
        build e config (Sort.Ordered.orderBy source ⟨K, key, cmp, direction⟩).toList key element = .ok l' ∧
        l'.groups.toList.Perm l.groups.toList ∧
        Sort.StablySorted (fun g h => direction.apply (cmp g.key h.key)) l.groups.toList l'.groups.toList ∧
        l'.groups.toList =
          (Sort.Ordered.orderBy (.ofList l.groups.toList sized) ⟨K, Group.key, cmp, direction⟩).toList) ∨
      ∃ n, Excess config source.rest.length n ∧
        build e config source.rest key element = .error (.capacityOverflow n) ∧
        build e config (Sort.Ordered.orderBy source ⟨K, key, cmp, direction⟩).toList key element =
          .error (.capacityOverflow n) := by
  obtain ⟨e', lawful, agree⟩ := laws.exists_lawful
  have sorted := (Sort.Ordered.stablySorted_orderBy_iff order source inside direction).2 rfl
  generalize (Sort.Ordered.orderBy source ⟨K, key, cmp, direction⟩).toList = ys at sorted
  have ties' : ∀ x ∈ source.rest, ∀ y ∈ source.rest,
      direction.apply (cmp (key x) (key y)) = .eq ↔ e'.equals (key x) (key y) = true := by
    intro x member y member'
    rw [agree.equals _ _ (inside x member) (inside y member'), ← ties _ _ (inside x member) (inside y member'),
      Direction.apply_eq_iff]
  have pushed (zs : List α) (within : zs ⊆ source.rest) : ∀ p ∈ zs.map fun x => (key x, element x), S p.1 := by
    intro p member
    obtain ⟨x, there, rfl⟩ := List.mem_map.1 member
    exact inside x (within there)
  -- an equality that is lawful on all keys gathers the same groups
  have gathered (zs : List α) (within : zs ⊆ source.rest) :
      Listing.pushAll e [] (zs.map fun x => (key x, element x)) = Listing.classes e' key element zs := by
    rw [← Listing.pushAll_eq_classes lawful, Listing.pushAll_congr agree (pushed zs within)]
  have classes : Sort.StablySorted _ (Listing.classes e' key element source.rest) _ :=
    Listing.stablySorted_classes lawful (fun a b => direction.apply (cmp a b)) ties' sorted
  rw [← gathered _ (List.Subset.refl _), ← gathered ys sorted.perm.subset] at classes
  have keys : ∀ g ∈ Listing.pushAll e [] (source.rest.map fun x => (key x, element x)), S g.key :=
    Listing.forall_key_pushAll (pushed _ (List.Subset.refl _))
  rcases builds_alike usable word classes.perm.length_eq with ⟨l, l', built, built', mirrors, mirrors'⟩ | overflow
  · rw [← mirrors.groups, ← mirrors'.groups] at classes
    rw [← mirrors.groups] at keys
    exact Or.inl ⟨l, l', built, built', classes.perm, classes,
      (Sort.Ordered.stablySorted_orderBy_iff order (.ofList l.groups.toList sized) keys direction).1 classes⟩
  · exact Or.inr overflow

/-- Numbers in the order of their remainders modulo three. -/
def byRemainder : Comparison Nat := fun a b => compare (a % 3) (b % 3)

/-- Some numbers from the greatest remainder down. -/
def fromTopRemainder : Sort.Ordered Nat :=
  .orderBy (.ofList [4, 3, 2, 7, 5] true) ⟨Nat, id, byRemainder, .descending⟩

/-- The class of the greatest remainder comes first, and each class has its numbers as they stood. -/
theorem build_orderBy_remainders :
    remainders.LawfulOn (fun _ => True) ∧ byRemainder.TotalPreorderOn (fun _ => True) ∧
      (∀ a b, byRemainder a b = .eq ↔ remainders.equals a b = true) ∧
      Config.validate ⟨1, 4⟩ = .ok () ∧ 1 ≤ Text.wordMax ∧
      ∃ l l', build remainders ⟨1, 4⟩ [4, 3, 2, 7, 5] id (10 * ·) = .ok l ∧
        fromTopRemainder.toList = [2, 5, 4, 7, 3] ∧
        build remainders ⟨1, 4⟩ fromTopRemainder.toList id (10 * ·) = .ok l' ∧
        Sort.StablySorted (fun g h => Direction.descending.apply (byRemainder g.key h.key))
          l.groups.toList l'.groups.toList ∧
        l.groups.toList = [⟨4, 0, #[40, 70]⟩, ⟨3, 0, #[30]⟩, ⟨2, 0, #[20, 50]⟩] ∧
        l'.groups.toList = [⟨2, 0, #[20, 50]⟩, ⟨4, 0, #[40, 70]⟩, ⟨3, 0, #[30]⟩] := by
  have laws := lawful_remainders.lawfulOn fun _ => True
  have order : byRemainder.TotalPreorderOn fun _ => True := by
    have numbers : Comparison.TotalPreorderOn (compare : Comparison Nat) fun _ => True :=
      Comparison.totalPreorderOn_of_transCmp _
    exact numbers.comap (· % 3)
  have ties (a b : Nat) : byRemainder a b = .eq ↔ remainders.equals a b = true := by
    simp [byRemainder, remainders]
  have usable : Config.validate ⟨1, 4⟩ = .ok () := rfl
  have word : 1 ≤ Text.wordMax := by decide
  refine ⟨laws, order, ties, usable, word, ?_⟩
  rcases build_orderBy laws order (fun a b _ _ => ties a b) usable word (.ofList [4, 3, 2, 7, 5] true) id
    (fun _ _ => trivial) (10 * ·) .descending true with
    ⟨l, l', built, built', -, stable, groups⟩ | ⟨n, excess, -⟩
  · have before : l.groups.toList = [⟨4, 0, #[40, 70]⟩, ⟨3, 0, #[30]⟩, ⟨2, 0, #[20, 50]⟩] := by
      have made : (build remainders ⟨1, 4⟩ [4, 3, 2, 7, 5] id (10 * ·)).toOption.map (·.groups.toList) =
          some [⟨4, 0, #[40, 70]⟩, ⟨3, 0, #[30]⟩, ⟨2, 0, #[20, 50]⟩] := by decide +kernel
      change build remainders ⟨1, 4⟩ [4, 3, 2, 7, 5] id (10 * ·) = .ok l at built
      rw [built] at made
      exact Option.some.inj made
    refine ⟨l, l', built, by decide +kernel, built', stable, before, ?_⟩
    rw [groups, before]
    decide +kernel
  · exact absurd excess.lt_count (by decide)

end Sorted

end Lookup

end Collate
