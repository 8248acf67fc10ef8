import Collate.Proofs.Lookup.Listing

/-!
# Grouping under a lawful equality

Where the equality is an equivalence that the hash respects, at most one group answers a query.
Building a lookup then gives one group per class of equal keys, in the order in which the
classes first occur: the group's key is that of the first item, and its elements are those of
all items with an equal key, in order. Nothing is lost, nothing comes twice, and every key finds
the elements of its class.
-/

set_option autoImplicit false

namespace Collate

namespace Listing

variable {K V α : Type} {e : Equality K}

theorem answers_place? {groups : List (Group K V)} {query : K} {place : Nat}
    (found : place? e groups query = some place) :
    ∃ g, groups[place]? = some g ∧ Lookup.answers e (e.storedHash query) query g = true := by
  rw [place?_eq] at found
  obtain ⟨⟨g, i⟩, search, rfl⟩ := Option.map_eq_some_iff.1 found
  have member := List.mem_reverse.1 (List.mem_of_find?_eq_some search)
  have answers := List.find?_some search
  exact ⟨g, List.mem_zipIdx_iff_getElem?.1 member, answers⟩

theorem place?_eq_none_iff {groups : List (Group K V)} {query : K} :
    place? e groups query = none ↔
      ∀ g ∈ groups, Lookup.answers e (e.storedHash query) query g = false := by
  rw [place?_eq, Option.map_eq_none_iff, List.find?_eq_none]
  constructor
  · intro none g member
    obtain ⟨i, bound, rfl⟩ := List.mem_iff_getElem.1 member
    have member : (groups[i], i) ∈ groups.zipIdx := List.mem_zipIdx_iff_getElem?.2 (by simp)
    simpa using none _ (List.mem_reverse.2 member)
  · intro none p member
    have member := List.mem_zipIdx_iff_getElem?.1 (List.mem_reverse.1 member)
    simp [none p.1 (List.mem_of_getElem? member)]

/-- No two groups have equal keys, and each is stored under the hash of its key. -/
structure Distinct (e : Equality K) (groups : List (Group K V)) : Prop where
  stored : ∀ g ∈ groups, g.hash = e.storedHash g.key
  distinct : groups.Pairwise fun g h => e.equals g.key h.key = false

/-- Under a lawful equality a group answers the queries that its key equals. -/
theorem Distinct.answers_eq {groups : List (Group K V)} (distinct : Distinct e groups)
    (lawful : e.Lawful) {g : Group K V} (member : g ∈ groups) (query : K) :
    Lookup.answers e (e.storedHash query) query g = e.equals g.key query := by
  cases equal : e.equals g.key query with
  | false => simp [Lookup.answers, equal]
  | true => simp [Lookup.answers, equal, distinct.stored g member, lawful.storedHash_eq equal]

/-- Two groups with equal keys are one. -/
theorem Distinct.place_eq {groups : List (Group K V)} (distinct : Distinct e groups)
    (lawful : e.Lawful) {g h : Group K V} {i j : Nat} (here : groups[i]? = some g)
    (there : groups[j]? = some h) (equal : e.equals g.key h.key = true) : i = j := by
  obtain ⟨iBound, rfl⟩ := List.getElem?_eq_some_iff.1 here
  obtain ⟨jBound, rfl⟩ := List.getElem?_eq_some_iff.1 there
  have apart := List.pairwise_iff_getElem.1 distinct.distinct
  rcases Nat.lt_trichotomy i j with before | same | behind
  · rw [apart i j iBound jBound before] at equal
    cases equal
  · exact same
  · have equal := lawful.symm _ _ equal
    rw [apart j i jBound iBound behind] at equal
    cases equal

/-- At most one group of a query's class is there, so it is the one that is found. -/
theorem Distinct.place?_eq_some_iff {groups : List (Group K V)} (distinct : Distinct e groups)
    (lawful : e.Lawful) {query : K} {place : Nat} :
    place? e groups query = some place ↔
      ∃ g, groups[place]? = some g ∧ e.equals g.key query = true := by
  constructor
  · intro found
    obtain ⟨g, here, answers⟩ := answers_place? found
    rw [distinct.answers_eq lawful (List.mem_of_getElem? here)] at answers
    exact ⟨g, here, answers⟩
  · rintro ⟨g, here, equal⟩
    cases found : place? e groups query with
    | none =>
      have member := List.mem_of_getElem? here
      have silent := place?_eq_none_iff.1 found g member
      rw [distinct.answers_eq lawful member, equal] at silent
      cases silent
    | some other =>
      obtain ⟨h, there, answers⟩ := answers_place? found
      rw [distinct.answers_eq lawful (List.mem_of_getElem? there)] at answers
      have same := distinct.place_eq lawful here there
        (lawful.trans _ _ _ equal (lawful.symm _ _ answers))
      rw [same]

theorem Distinct.place?_eq_none_iff {groups : List (Group K V)} (distinct : Distinct e groups)
    (lawful : e.Lawful) {query : K} :
    place? e groups query = none ↔ ∀ g ∈ groups, e.equals g.key query = false := by
  rw [Listing.place?_eq_none_iff]
  constructor
  · intro silent g member
    rw [← distinct.answers_eq lawful member query]
    exact silent g member
  · intro apart g member
    rw [distinct.answers_eq lawful member query]
    exact apart g member

/-! ## The classes of a list of items -/

variable (e) (key : α → K) (element : α → V)

/-- The items whose key equals that of no item kept before them. -/
def firsts (xs : List α) : List α := xs.eraseDupsBy fun x first => e.equals (key first) (key x)

/-- The group of the items whose key equals an item's key. -/
def classOf (xs : List α) (x : α) : Group K V where
  key := key x
  hash := e.storedHash (key x)
  elements := ((xs.filter fun y => e.equals (key x) (key y)).map element).toArray

/-- One group per class of equal keys, in the order in which the classes first occur. -/
def classes (xs : List α) : List (Group K V) := (firsts e key xs).map (classOf e key element xs)

variable {e} {key} {element}

theorem firsts_append_singleton (xs : List α) (x : α) :
    firsts e key (xs ++ [x]) =
      if (firsts e key xs).any (fun first => e.equals (key first) (key x)) then firsts e key xs
      else firsts e key xs ++ [x] := by
  have loop (seen : List α) (r : α → α → Bool) :
      List.eraseDupsBy.loop r (xs ++ [x]) seen =
        if (List.eraseDupsBy.loop r xs seen).any (r x) then List.eraseDupsBy.loop r xs seen
        else List.eraseDupsBy.loop r xs seen ++ [x] := by
    induction xs generalizing seen with
    | nil => cases known : seen.any (r x) <;> simp [List.eraseDupsBy.loop, known]
    | cons y xs ih =>
      rw [List.cons_append, List.eraseDupsBy.loop, List.eraseDupsBy.loop]
      split
      · exact ih seen
      · exact ih (y :: seen)
  exact loop [] _

theorem firsts_sublist (xs : List α) : (firsts e key xs).Sublist xs := by
  induction xs using List.reverseRecOn with
  | nil => exact List.Sublist.refl _
  | append_singleton xs x ih =>
    rw [firsts_append_singleton]
    split
    · exact ih.trans (List.sublist_append_left xs [x])
    · exact ih.append (List.Sublist.refl [x])

theorem firsts_subset (xs : List α) : firsts e key xs ⊆ xs := (firsts_sublist xs).subset

/-- Every item has a first item with an equal key. -/
theorem exists_first (lawful : e.Lawful) {xs : List α} {x : α} (member : x ∈ xs) :
    ∃ first ∈ firsts e key xs, e.equals (key first) (key x) = true := by
  induction xs using List.reverseRecOn with
  | nil => cases member
  | append_singleton xs last ih =>
    rw [firsts_append_singleton]
    rcases List.mem_append.1 member with old | new
    · obtain ⟨first, known, equal⟩ := ih old
      refine ⟨first, ?_, equal⟩
      split
      · exact known
      · exact List.mem_append_left _ known
    · rw [List.mem_singleton] at new
      subst new
      split
      · next seen => exact List.any_eq_true.1 seen
      · exact ⟨x, by simp, lawful.refl _⟩

theorem pairwise_firsts (xs : List α) :
    (firsts e key xs).Pairwise fun x y => e.equals (key x) (key y) = false := by
  induction xs using List.reverseRecOn with
  | nil => exact List.Pairwise.nil
  | append_singleton xs last ih =>
    rw [firsts_append_singleton]
    split
    · exact ih
    · next fresh =>
      refine List.pairwise_append.2 ⟨ih, List.pairwise_singleton _ _, ?_⟩
      intro first known x new
      rw [List.mem_singleton] at new
      subst new
      simpa using List.any_eq_false.1 (Bool.eq_false_iff.2 fresh) first known

theorem distinct_classes (xs : List α) : Distinct e (classes e key element xs) where
  stored g member := by
    obtain ⟨x, -, rfl⟩ := List.mem_map.1 member
    rfl
  distinct := List.pairwise_map.2 (pairwise_firsts xs)

theorem place?_classes_eq_some_iff (lawful : e.Lawful) {xs : List α} {query : K} {place : Nat} :
    place? e (classes e key element xs) query = some place ↔
      ∃ first, (firsts e key xs)[place]? = some first ∧ e.equals (key first) query = true := by
  rw [(distinct_classes xs).place?_eq_some_iff lawful, classes, List.getElem?_map]
  constructor
  · rintro ⟨g, here, equal⟩
    obtain ⟨first, known, rfl⟩ := Option.map_eq_some_iff.1 here
    exact ⟨first, known, equal⟩
  · rintro ⟨first, known, equal⟩
    exact ⟨classOf e key element xs first, by rw [known]; rfl, equal⟩

theorem place?_classes_eq_none_iff (lawful : e.Lawful) {xs : List α} {query : K} :
    place? e (classes e key element xs) query = none ↔
      ∀ first ∈ firsts e key xs, e.equals (key first) query = false := by
  rw [(distinct_classes xs).place?_eq_none_iff lawful, classes, List.forall_mem_map]
  exact Iff.rfl

/-- An item that is no member of a class leaves the class as it was. -/
theorem classOf_append_of_not_equals {xs : List α} {x first : α}
    (apart : e.equals (key first) (key x) = false) :
    (classOf e key element (xs ++ [x]) first : Group K V) = classOf e key element xs first := by
  simp [classOf, List.filter_append, apart]

/-- An item whose key equals no key before it is a class of its own. -/
theorem classOf_append_self (lawful : e.Lawful) {xs : List α} {x : α}
    (fresh : ∀ first ∈ firsts e key xs, e.equals (key first) (key x) = false) :
    (classOf e key element (xs ++ [x]) x : Group K V) = ⟨key x, e.storedHash (key x), #[element x]⟩ := by
  have alone : xs.filter (fun y => e.equals (key x) (key y)) = [] := by
    rw [List.filter_eq_nil_iff]
    intro y member equal
    obtain ⟨first, known, same⟩ := exists_first lawful member
    have apart := fresh first known
    rw [lawful.trans _ _ _ same (lawful.symm _ _ equal)] at apart
    cases apart
  simp [classOf, List.filter_append, alone, lawful.refl]

/-- An item joins its class, or founds it. -/
theorem push_classes (lawful : e.Lawful) (xs : List α) (x : α) :
    push e (classes e key element xs) (key x) (element x) = classes e key element (xs ++ [x]) := by
  rw [push_eq]
  cases found : place? e (classes e key element xs) (key x) with
  | none =>
    have fresh := (place?_classes_eq_none_iff lawful).1 found
    have unseen : (firsts e key xs).any (fun first => e.equals (key first) (key x)) = false :=
      List.any_eq_false.2 fun first known => by simp [fresh first known]
    have old : (firsts e key xs).map (classOf e key element (xs ++ [x])) = classes e key element xs :=
      List.map_congr_left fun first known => classOf_append_of_not_equals (fresh first known)
    have grown : classes e key element (xs ++ [x]) =
        classes e key element xs ++ [⟨key x, e.storedHash (key x), #[element x]⟩] := by
      rw [classes, firsts_append_singleton, unseen, if_neg Bool.false_ne_true, List.map_append, old,
        List.map_singleton, classOf_append_self lawful fresh]
    exact grown.symm
  | some place =>
    obtain ⟨first, known, equal⟩ := (place?_classes_eq_some_iff lawful).1 found
    have seen : (firsts e key xs).any (fun first => e.equals (key first) (key x)) = true :=
      List.any_eq_true.2 ⟨first, List.mem_of_getElem? known, equal⟩
    have kept : firsts e key (xs ++ [x]) = firsts e key xs := by
      rw [firsts_append_singleton, if_pos seen]
    apply List.ext_getElem?
    intro i
    rw [List.getElem?_modify, classes, classes, kept, List.getElem?_map, List.getElem?_map]
    by_cases same : place = i
    · subst same
      simp [known, classOf, List.filter_append, equal]
    · cases there : (firsts e key xs)[i]? with
      | none => simp
      | some other =>
        -- a second class with this key would stand at the place of the first
        have apart : e.equals (key other) (key x) = false := by
          rw [Bool.eq_false_iff]
          intro joined
          have again : place? e (classes e key element xs) (key x) = some i :=
            (place?_classes_eq_some_iff lawful).2 ⟨other, there, joined⟩
          exact same (Option.some.inj (found.symm.trans again))
        simp [same, classOf_append_of_not_equals apart]

/-- **Pushing items one by one gathers their classes.** -/
theorem pushAll_eq_classes (lawful : e.Lawful) (xs : List α) :
    pushAll e [] (xs.map fun x => (key x, element x)) = classes e key element xs := by
  induction xs using List.reverseRecOn with
  | nil => rfl
  | append_singleton xs x ih =>
    rw [List.map_append, pushAll, List.foldl_append]
    rw [pushAll] at ih
    rw [ih]
    exact push_classes lawful xs x

/-- The elements under a key are those of all items with an equal key. -/
theorem get_classes (lawful : e.Lawful) (xs : List α) (query : K) :
    (get e (classes e key element xs) query).toList =
      (xs.filter fun x => e.equals (key x) query).map element := by
  unfold get group?
  cases found : place? e (classes e key element xs) query with
  | none =>
    have silent := (place?_classes_eq_none_iff lawful).1 found
    have nobody : xs.filter (fun x => e.equals (key x) query) = [] := by
      rw [List.filter_eq_nil_iff]
      intro x member equal
      obtain ⟨first, known, same⟩ := exists_first lawful member
      have apart := silent first known
      rw [lawful.trans _ _ _ same equal] at apart
      cases apart
    simp [nobody]
  | some place =>
    obtain ⟨first, known, equal⟩ := (place?_classes_eq_some_iff lawful).1 found
    have same : xs.filter (fun x => e.equals (key first) (key x)) =
        xs.filter fun x => e.equals (key x) query := by
      apply List.filter_congr
      intro x _
      rw [Bool.eq_iff_iff]
      constructor
      · intro joined
        exact lawful.trans _ _ _ (lawful.symm _ _ joined) equal
      · intro joined
        exact lawful.trans _ _ _ equal (lawful.symm _ _ joined)
    simp [classes, known, classOf, same]

/-- Every class has its first item as a member. -/
theorem elements_ne_empty (lawful : e.Lawful) {xs : List α} {g : Group K V}
    (member : g ∈ classes e key element xs) : g.elements ≠ #[] := by
  obtain ⟨first, known, rfl⟩ := List.mem_map.1 member
  have own : first ∈ xs.filter fun x => e.equals (key first) (key x) :=
    List.mem_filter.2 ⟨firsts_subset xs known, lawful.refl _⟩
  simpa [classOf] using List.ne_nil_of_mem own

end Listing

namespace Lookup

variable {K V α : Type} {e : Equality K} {key : α → K} {element : α → V}

/-- A lookup groups the items of a list: one group per class of equal keys, in the order in which
the classes first occur, with the key of its first item and the elements of all its items. -/
structure Grouped (e : Equality K) (key : α → K) (element : α → V) (xs : List α) (l : Lookup K V) :
    Prop where
  groups : l.groups.toList = (Listing.firsts e key xs).map fun first =>
    ⟨key first, e.storedHash (key first),
      ((xs.filter fun x => e.equals (key first) (key x)).map element).toArray⟩
  covered : ∀ x ∈ xs, ∃ k ∈ l.keys, e.equals k (key x) = true
  distinct : l.keys.Pairwise fun a b => e.equals a b = false
  inhabited : ∀ g ∈ l.groups, g.elements ≠ #[]
  get : ∀ query, (l.get query).toList = (xs.filter fun x => e.equals (key x) query).map element
  contains : ∀ query, l.contains query = true ↔ l.get query ≠ #[]
  indexOf? : ∀ place g, l.groupAt? place = some g → l.indexOf? g.key = some place

theorem Mirrors.grouped (lawful : e.Lawful) {xs : List α} {l : Lookup K V}
    (mirrors : l.Mirrors e (Listing.classes e key element xs)) : l.Grouped e key element xs where
  groups := mirrors.groups
  covered x member := by
    obtain ⟨first, known, equal⟩ := Listing.exists_first lawful member
    refine ⟨key first, ?_, equal⟩
    rw [keys, mirrors.groups, Listing.classes, List.map_map]
    exact List.mem_map_of_mem known
  distinct := by
    rw [keys, mirrors.groups]
    exact List.pairwise_map.2 (Listing.distinct_classes xs).distinct
  inhabited g member := by
    rw [← Array.mem_toList_iff, mirrors.groups] at member
    exact Listing.elements_ne_empty lawful member
  get query := by
    rw [mirrors.get]
    exact Listing.get_classes lawful xs query
  contains query := by
    rw [mirrors.contains, mirrors.get, Listing.get]
    cases found : Listing.group? e (Listing.classes e key element xs) query with
    | none => simp
    | some g =>
      obtain ⟨place, -, here⟩ := Option.bind_eq_some_iff.1 found
      simpa using Listing.elements_ne_empty lawful (List.mem_of_getElem? here)
  indexOf? place g here := by
    rw [mirrors.groupAt?] at here
    rw [mirrors.indexOf?]
    exact ((Listing.distinct_classes xs).place?_eq_some_iff lawful).2 ⟨g, here, lawful.refl _⟩

/-- A lookup is built by pushing the keys and elements of the items onto an empty one. -/
theorem build_eq_pushAll (e : Equality K) {config : Config} (usable : config.validate = .ok ())
    (xs : List α) (key : α → K) (element : α → V) :
    build e config xs key element =
      (empty e config.initialBuckets).pushAll (xs.map fun x => (key x, element x)) := by
  have steps (built : Except Error (Lookup K V)) :
      Id.run (xs.foldlM (collectStep (fun x => pure (key x)) fun x => pure (element x)) built) =
        built.bind fun l => l.pushAll (xs.map fun x => (key x, element x)) := by
    induction xs generalizing built with
    | nil => cases built <;> rfl
    | cons x xs ih =>
      cases built with
      | error fault => exact ih (.error fault)
      | ok l => exact ih (l.push (key x) (element x))
  rw [build, buildM, configured, usable]
  exact steps _

/-- **Building groups.** Under a lawful equality and a usable configuration, building a lookup
groups the items by their keys, unless the groups come to need more buckets than a machine word
can count. -/
theorem build_grouped (lawful : e.Lawful) {config : Config} (usable : config.validate = .ok ())
    (word : config.initialBuckets ≤ Text.wordMax) (xs : List α) (key : α → K) (element : α → V) :
    (∃ l, build e config xs key element = .ok l ∧ l.Grouped e key element xs) ∨
      ∃ n, config.initialBuckets < n ∧ n ≤ (Listing.firsts e key xs).length ∧
        Text.wordMax < 2 * n + 1 ∧
        build e config xs key element = .error (.capacityOverflow n) := by
  have some := (Config.validate_eq_ok_iff.1 usable).1
  have gathered : Listing.pushAll e [] (xs.map fun x => (key x, element x)) =
      Listing.classes e key element xs := Listing.pushAll_eq_classes lawful xs
  have mirrors := insertAll_mirrors e some (xs.map fun x => (key x, element x))
  have run := pushAll_cases (empty e config.initialBuckets) (xs.map fun x => (key x, element x))
    (by rwa [bucketCount_empty])
  rw [gathered] at mirrors
  rw [← build_eq_pushAll e usable] at run
  rcases run with built | ⟨n, more, bound, excess, failed⟩
  · exact Or.inl ⟨_, built, mirrors.grouped lawful⟩
  · rw [bucketCount_empty] at more
    rw [mirrors.size_eq, Listing.classes, List.length_map] at bound
    exact Or.inr ⟨n, more, bound, excess, failed⟩

/-- Numbers with one remainder modulo three are equal, and all of them collide. -/
def remainders : Equality Nat := ⟨fun a b => a % 3 == b % 3, fun _ => 0⟩

theorem lawful_remainders : remainders.Lawful where
  refl a := by simp [remainders]
  symm a b h := by simp_all [remainders]
  trans a b c h₁ h₂ := by simp_all [remainders]
  hash_eq a b _ := rfl

/-- Three classes share one bucket, and the table grows at the second of them. -/
theorem build_grouped_remainders :
    remainders.Lawful ∧ Config.validate ⟨1, 4⟩ = .ok () ∧ 1 ≤ Text.wordMax ∧
      ∃ l, build remainders ⟨1, 4⟩ [4, 2, 7, 3, 5] id (10 * ·) = .ok l ∧
        l.groups.toList = [⟨4, 0, #[40, 70]⟩, ⟨2, 0, #[20, 50]⟩, ⟨3, 0, #[30]⟩] ∧
        (l.get 10).toList = [40, 70] := by
  refine ⟨lawful_remainders, rfl, by decide, ?_⟩
  rcases build_grouped lawful_remainders (rfl : Config.validate ⟨1, 4⟩ = .ok ()) (by decide)
    [4, 2, 7, 3, 5] id (10 * ·) with ⟨l, built, grouped⟩ | ⟨n, -, bound, excess, -⟩
  · exact ⟨l, built, grouped.groups.trans (by decide), (grouped.get 10).trans (by decide)⟩
  · have length : (Listing.firsts remainders id [4, 2, 7, 3, 5]).length = 3 := by decide
    have : Text.wordMax = 0xFFFFFFFFFFFFFFFF := rfl
    omega

end Lookup

end Collate
