import Collate.Join.Grouped
import Collate.Join.Inner
import Collate.Proofs.Pull
import Mathlib.Data.List.Flatten

/-!
# What joins give

Both joins hand out their results one at a time. What a join has still to give can be read off its
state: the matches that its current outer element has left, and behind them all matches of each
outer element not yet taken. A pull gives the first of these and leaves the others, so pulling to
the end gives them all. Nothing is asked of the lookup here, nor of its equality.
-/

set_option autoImplicit false

namespace Collate

/-- The elements under a key are those of the group at the key's place. -/
theorem Lookup.get_eq {K V : Type} (l : Lookup K V) (key : K) :
    l.get key = match l.indexOf? key with
      | some place => l.elementsAt place
      | none => #[] := by
  unfold get group? elementsAt
  cases l.indexOf? key <;> rfl

namespace Join

variable {O K I R : Type} (outerKey : O → Option K) (result : O → I → R)

/-- An outer element with each of its matches. -/
def matched (lookup : Lookup K I) (o : O) : List (O × I) :=
  (GroupJoin.matchesOf lookup (outerKey o)).toList.map (o, ·)

/-- What the current outer element has left to give. -/
def left (j : Join O K I) : List (O × I) :=
  match j.current with
  | some c => ((j.lookup.elementsAt c.group).toList.drop c.position).map (c.outer, ·)
  | none => []

/-- The pairs that a join has still to give. -/
def pending (j : Join O K I) : List (O × I) :=
  j.left ++ j.outer.rest.flatMap (matched outerKey j.lookup)

@[simp] theorem pending_start (outer : Source O) (lookup : Lookup K I) :
    (start outer lookup).pending outerKey = outer.rest.flatMap (matched outerKey lookup) := rfl

/-- The next result is ready as long as the current outer element has a match left. -/
theorem ready?_cases (j : Join O K I) :
    j.ready? = none ∧ (∀ c, j.current = some c → (j.lookup.elementsAt c.group).size ≤ c.position) ∨
      ∃ c i, j.current = some c ∧ (j.lookup.elementsAt c.group)[c.position]? = some i ∧
        j.ready? = some (c.outer, i, { j with current := some { c with position := c.position + 1 } }) := by
  unfold ready?
  cases current : j.current with
  | none => exact Or.inl ⟨rfl, nofun⟩
  | some c =>
    dsimp only
    cases item : (j.lookup.elementsAt c.group)[c.position]? with
    | none =>
      refine Or.inl ⟨rfl, ?_⟩
      rintro _ ⟨⟩
      exact Array.getElem?_eq_none_iff.1 item
    | some i => exact Or.inr ⟨c, i, rfl, item, rfl⟩

theorem ready?_eq (j : Join O K I) :
    j.ready? = none ∧ j.left = [] ∨
      ∃ o i next, j.ready? = some (o, i, next) ∧ j.left = (o, i) :: next.left ∧
        next.outer = j.outer ∧ next.lookup = j.lookup := by
  rcases j.ready?_cases with ⟨idle, past⟩ | ⟨c, i, current, item, ready⟩
  · refine Or.inl ⟨idle, ?_⟩
    unfold left
    cases current : j.current with
    | none => rfl
    | some c => simp [List.drop_of_length_le, past c current]
  · refine Or.inr ⟨_, _, _, ready, ?_, rfl, rfl⟩
    rw [left, current]
    dsimp only
    rw [List.drop_eq_getElem?_toList_append, Array.getElem?_toList, item]
    rfl

/-- One outer element, whose key may be asked for with an effect, either has no match and is passed
over, or gives its first match. -/
theorem advanceM_cons {m : Type → Type} [Monad m] [LawfulMonad m] (noteKey : O → m Unit) (resultM : O → I → m R)
    (lookup : Lookup K I) (sized : Bool) (o : O) (rest : List O) (taken : Nat) :
    let keyM := fun o => do
      noteKey o
      pure (outerKey o)
    GroupJoin.matchesOf lookup (outerKey o) = #[] ∧
        advanceM lookup sized keyM resultM (o :: rest) taken = (do
          noteKey o
          advanceM lookup sized keyM resultM rest (taken + 1)) ∨
      ∃ i group, GroupJoin.matchesOf lookup (outerKey o) = lookup.elementsAt group ∧
        (lookup.elementsAt group)[0]? = some i ∧
        advanceM lookup sized keyM resultM (o :: rest) taken = (do
          noteKey o
          let r ← resultM o i
          pure (some r, ⟨⟨rest, sized, taken + 1⟩, lookup, some ⟨o, group, 1⟩⟩)) := by
  intro keyM
  rw [advanceM, bind_assoc]
  cases key : outerKey o with
  | none => exact Or.inl ⟨rfl, by simp⟩
  | some k =>
    rw [GroupJoin.matchesOf, Lookup.get_eq]
    cases place : lookup.indexOf? k with
    | none => exact Or.inl ⟨rfl, by simp [place]⟩
    | some group =>
      dsimp only
      cases first : (lookup.elementsAt group)[0]? with
      | none => exact Or.inl ⟨by simpa using first, by simp [place, first]⟩
      | some i => exact Or.inr ⟨i, group, rfl, first, by simp [place, first]⟩

theorem eq_cons_drop_of_getElem? {α : Type} {xs : List α} {x : α} (first : xs[0]? = some x) :
    xs = x :: xs.drop 1 := by
  cases xs with
  | nil => cases first
  | cons y rest =>
    obtain rfl := Option.some.inj first
    rfl

/-- The first result of the outer elements from here on, and the join after it. -/
def advance (lookup : Lookup K I) (sized : Bool) (rest : List O) (taken : Nat) :
    Option R × Join O K I :=
  Id.run (advanceM lookup sized (fun o => pure (outerKey o)) (fun o i => pure (result o i)) rest taken)

/-- One outer element either has no match and is passed over, or gives its first match. -/
theorem advance_cons (lookup : Lookup K I) (sized : Bool) (o : O) (rest : List O) (taken : Nat) :
    matched outerKey lookup o = [] ∧
        advance outerKey result lookup sized (o :: rest) taken =
          advance outerKey result lookup sized rest (taken + 1) ∨
      ∃ i group, matched outerKey lookup o = (o, i) :: ((lookup.elementsAt group).toList.drop 1).map (o, ·) ∧
        advance outerKey result lookup sized (o :: rest) taken =
          (some (result o i), ⟨⟨rest, sized, taken + 1⟩, lookup, some ⟨o, group, 1⟩⟩) := by
  unfold matched
  rcases advanceM_cons (m := Id) outerKey (fun _ => pure ()) (fun o i => pure (result o i)) lookup sized o rest taken with
    ⟨none, passed⟩ | ⟨i, group, found, first, given⟩
  · exact Or.inl ⟨by rw [none]; rfl, passed⟩
  · have all := eq_cons_drop_of_getElem? (Array.getElem?_toList.trans first)
    exact Or.inr ⟨i, group, by rw [found]; exact congrArg (List.map (o, ·)) all, given⟩

/-- Passing over outer elements comes to an end, or to the first pair of all that they give. -/
theorem advance_eq (lookup : Lookup K I) (sized : Bool) (rest : List O) (taken : Nat) :
    rest.flatMap (matched outerKey lookup) = [] ∧
        (advance outerKey result lookup sized rest taken).1 = none ∨
      ∃ o i next, rest.flatMap (matched outerKey lookup) = (o, i) :: pending outerKey next ∧
        advance outerKey result lookup sized rest taken = (some (result o i), next) := by
  -- An element that is passed over adds no pair, so the list of pairs stays the same.
  induction rest generalizing taken with
  | nil => exact Or.inl ⟨rfl, rfl⟩
  | cons o rest ih =>
    rw [List.flatMap_cons]
    rcases advance_cons outerKey result lookup sized o rest taken with ⟨none, passed⟩ | ⟨i, group, some, given⟩
    · rw [none, passed]
      exact ih (taken + 1)
    · exact Or.inr ⟨o, i, _, by rw [some]; rfl, given⟩

/-- A pull gives the first pair that is pending, and leaves the others. -/
theorem pull_eq (j : Join O K I) :
    j.pending outerKey = [] ∧ (j.pull outerKey result).1 = none ∨
      ∃ o i next, j.pending outerKey = (o, i) :: next.pending outerKey ∧
        j.pull outerKey result = (some (result o i), next) := by
  unfold pull pullM
  rcases j.ready?_eq with ⟨idle, nothing⟩ | ⟨o, i, next, ready, left, outer, lookup⟩
  · rw [idle, pending, nothing, List.nil_append]
    exact advance_eq outerKey result j.lookup j.outer.sized j.outer.rest j.outer.taken
  · refine Or.inr ⟨o, i, next, ?_, by rw [ready]; rfl⟩
    rw [pending, pending, left, outer, lookup, List.cons_append]

/-- **A join gives all pairs that are pending**, in order, and then nothing. -/
theorem yields_pending (j : Join O K I) :
    Pull.Yields (pull outerKey result) j ((j.pending outerKey).map fun p => result p.1 p.2) := by
  refine Pull.yields_view (fun j : Join O K I => (j.pending outerKey).map fun p => result p.1 p.2) ?_ ?_ j
  · intro j empty
    rcases pull_eq outerKey result j with ⟨-, none⟩ | ⟨o, i, next, some, -⟩
    · exact none
    · rw [some] at empty
      cases empty
  · intro j r rs seen
    rcases pull_eq outerKey result j with ⟨none, -⟩ | ⟨o, i, next, some, given⟩
    · rw [none] at seen
      cases seen
    · rw [some, List.map_cons] at seen
      obtain ⟨rfl, rfl⟩ := List.cons.inj seen
      rw [given]
      exact ⟨rfl, rfl⟩

/-- No key has more matches than the lookup has elements. -/
theorem length_elementsAt_le (l : Lookup K I) (place : Nat) :
    (l.elementsAt place).size ≤ l.flatten.length := by
  unfold Lookup.elementsAt Lookup.groupAt?
  cases found : l.groups[place]? with
  | none => simp
  | some g =>
    have member : g ∈ l.groups.toList := Array.mem_toList_iff.2 (Array.mem_of_getElem? found)
    have part : ([g].flatMap fun g => g.elements.toList).Sublist l.flatten :=
      (List.singleton_sublist.2 member).flatMap _
    rw [List.flatMap_singleton] at part
    exact part.length_le

theorem length_matched_le (lookup : Lookup K I) (o : O) :
    (matched outerKey lookup o).length ≤ lookup.flatten.length := by
  unfold matched
  rw [List.length_map, Array.length_toList]
  cases outerKey o with
  | none => exact Nat.zero_le _
  | some key =>
    rw [GroupJoin.matchesOf, Lookup.get_eq]
    cases lookup.indexOf? key with
    | none => exact Nat.zero_le _
    | some place => exact length_elementsAt_le lookup place

theorem length_flatMap_matched_le (lookup : Lookup K I) (outer : List O) :
    (outer.flatMap (matched outerKey lookup)).length ≤ outer.length * lookup.flatten.length := by
  induction outer with
  | nil => exact Nat.zero_le _
  | cons o rest ih =>
    have first := length_matched_le outerKey lookup o
    rw [List.flatMap_cons, List.length_append, List.length_cons, Nat.succ_mul]
    omega

theorem length_pending_le (j : Join O K I) : (j.pending outerKey).length ≤ j.bound := by
  have current : j.left.length ≤ j.lookup.flatten.length := by
    unfold left
    cases j.current with
    | none => exact Nat.zero_le _
    | some c =>
      have all := length_elementsAt_le j.lookup c.group
      simp only [List.length_map, List.length_drop, Array.length_toList]
      omega
  have others := length_flatMap_matched_le outerKey j.lookup j.outer.rest
  rw [pending, List.length_append, bound, Nat.succ_mul]
  omega

/-- **A join gives all pairs that are pending**, one result for each. -/
theorem toList_eq (j : Join O K I) :
    j.toList outerKey result = (j.pending outerKey).map fun p => result p.1 p.2 := by
  refine (yields_pending outerKey result j).collect_eq ?_
  rw [List.length_map]
  exact length_pending_le outerKey j

/-- From its start, a join gives one result for each outer element and each of its matches. -/
theorem toList_start (outer : Source O) (lookup : Lookup K I) :
    (start outer lookup).toList outerKey result =
      outer.rest.flatMap fun o => (GroupJoin.matchesOf lookup (outerKey o)).toList.map (result o) := by
  rw [toList_eq, pending_start, List.map_flatMap]
  simp only [matched, List.map_map]
  rfl

end Join

namespace GroupJoin

variable {O K I R : Type} (outerKey : O → Option K) (result : O → Array I → R)

/-- Each outer element to come, with all its matches. -/
def pending (j : GroupJoin O K I) : List (O × Array I) :=
  j.outer.rest.map fun o => (o, matchesOf j.lookup (outerKey o))

@[simp] theorem pending_start (outer : Source O) (lookup : Lookup K I) :
    (start outer lookup).pending outerKey =
      outer.rest.map fun o => (o, matchesOf lookup (outerKey o)) := rfl

/-- **A group join gives each outer element once**, with all its matches, and then nothing. -/
theorem yields_pending (j : GroupJoin O K I) :
    Pull.Yields (pull outerKey result) j ((j.pending outerKey).map fun p => result p.1 p.2) := by
  refine Pull.yields_view (fun j : GroupJoin O K I => (j.pending outerKey).map fun p => result p.1 p.2) ?_ ?_ j
  · rintro ⟨⟨rest, sized, taken⟩, lookup⟩ empty
    cases rest with
    | nil => rfl
    | cons o rest => cases empty
  · rintro ⟨⟨rest, sized, taken⟩, lookup⟩ r rs seen
    cases rest with
    | nil => cases seen
    | cons o rest =>
      obtain ⟨rfl, rfl⟩ := List.cons.inj seen
      exact ⟨rfl, rfl⟩

theorem toList_eq (j : GroupJoin O K I) :
    j.toList outerKey result = (j.pending outerKey).map fun p => result p.1 p.2 :=
  (yields_pending outerKey result j).collect_eq (by simp [pending])

/-- From its start, a group join gives one result for each outer element. -/
theorem toList_start (outer : Source O) (lookup : Lookup K I) :
    (start outer lookup).toList outerKey result =
      outer.rest.map fun o => result o (matchesOf lookup (outerKey o)) := by
  rw [toList_eq, pending_start, List.map_map]
  rfl

end GroupJoin

end Collate
