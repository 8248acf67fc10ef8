import Collate.Proofs.Join.Emission
import Collate.Proofs.Join.Index

/-!
# Inner joins stream

A join takes no outer element before it needs it. Its selectors are watched here: each call is
noted, so after any number of pulls the notes say for which outer elements a key was asked for and
for which pairs a result. A result is known by its place, that is by the number of its outer
element and by the number of its match. A pull that gives the result at a place has taken the outer
elements up to the one there, and asked for the key of each once and in order.
-/

set_option autoImplicit false

namespace Collate

/-- A call of one of the selectors of a join. -/
inductive Call (O I : Type) where
  | key (outer : O)
  | result (outer : O) (inner : I)
  deriving DecidableEq, Repr

namespace Call

variable {O I : Type}

/-- The outer element whose key was asked for. -/
def keyed? : Call O I → Option O
  | key o => some o
  | result .. => none

/-- The pair whose result was asked for. -/
def paired? : Call O I → Option (O × I)
  | key _ => none
  | result o i => some (o, i)

/-- A call noted behind the others. -/
def note (call : Call O I) : StateM (List (Call O I)) Unit := modify (· ++ [call])

/-- The outer elements whose keys were asked for, in order. -/
def keys (calls : List (Call O I)) : List O := calls.filterMap keyed?

/-- The pairs whose results were asked for, in order. -/
def results (calls : List (Call O I)) : List (O × I) := calls.filterMap paired?

@[simp] theorem keys_append (calls more : List (Call O I)) : keys (calls ++ more) = keys calls ++ keys more :=
  List.filterMap_append

@[simp] theorem results_append (calls more : List (Call O I)) :
    results (calls ++ more) = results calls ++ results more :=
  List.filterMap_append

@[simp] theorem keys_map_key (outer : List O) : keys (outer.map (key : O → Call O I)) = outer := by
  rw [keys, List.filterMap_map]
  exact List.filterMap_some

@[simp] theorem results_map_key (outer : List O) : results (outer.map (key : O → Call O I)) = [] := by
  rw [results, List.filterMap_map]
  exact List.filterMap_eq_nil_iff.2 fun _ _ => rfl

@[simp] theorem keys_result (o : O) (i : I) : keys [result o i] = [] := rfl

@[simp] theorem results_result (o : O) (i : I) : results [result o i] = [(o, i)] := rfl

end Call

/-- A result of a join by its place: the number of its outer element and the number of its match. -/
structure Placed (O I : Type) where
  outerNumber : Nat
  outer : O
  matchNumber : Nat
  inner : I
  deriving DecidableEq, Repr

/-- The pair whose result stands at a place. -/
def Placed.pair {O I : Type} (q : Placed O I) : O × I := (q.outer, q.inner)

namespace Join

variable {O K I R : Type} (outerKey : O → Option K) (result : O → I → R)

/-- An outer key selector whose calls are noted. -/
def notedKey (o : O) : StateM (List (Call O I)) (Option K) := do
  Call.note (.key o)
  pure (outerKey o)

/-- A result selector whose calls are noted. -/
def notedResult (o : O) (i : I) : StateM (List (Call O I)) R := do
  Call.note (.result o i)
  pure (result o i)

/-- A pull of a join with the calls noted so far. -/
def notedPull (s : Join O K I × List (Call O I)) : Option R × Join O K I × List (Call O I) :=
  let pulled := (pullM (notedKey outerKey) (notedResult result) s.1).run s.2
  (pulled.1.1, pulled.1.2, pulled.2)

/-- An outer element with each of its matches, by their places. -/
def placedMatches (lookup : Lookup K I) (o : O × Nat) : List (Placed O I) :=
  (GroupJoin.matchesOf lookup (outerKey o.1)).toList.zipIdx.map fun i => ⟨o.2, o.1, i.2, i.1⟩

/-- All results of some outer elements by their places, the elements numbered from `first` on. -/
def placed (lookup : Lookup K I) (first : Nat) (outer : List O) : List (Placed O I) :=
  (outer.zipIdx first).flatMap (placedMatches outerKey lookup)

/-- What the current outer element has left to give, by places. -/
def placedLeft (j : Join O K I) : List (Placed O I) :=
  match j.current with
  | some c => ((j.lookup.elementsAt c.group).toList.zipIdx.drop c.position).map fun i =>
      ⟨j.outer.taken - 1, c.outer, i.2, i.1⟩
  | none => []

/-- What a join has still to give, by places. -/
def ahead (j : Join O K I) : List (Placed O I) :=
  j.placedLeft ++ placed outerKey j.lookup j.outer.taken j.outer.rest

theorem placed_cons (lookup : Lookup K I) (first : Nat) (o : O) (rest : List O) :
    placed outerKey lookup first (o :: rest) =
      placedMatches outerKey lookup (o, first) ++ placed outerKey lookup (first + 1) rest := by
  rw [placed, List.zipIdx_cons, List.flatMap_cons, placed]

/-- Without their places, the results are of all pairs of an outer element and a match. -/
theorem map_pair_placed (lookup : Lookup K I) (first : Nat) (outer : List O) :
    (placed outerKey lookup first outer).map Placed.pair = outer.flatMap (matched outerKey lookup) := by
  induction outer generalizing first with
  | nil => rfl
  | cons o rest ih =>
    rw [placed_cons, List.map_append, ih, List.flatMap_cons]
    congr 1
    rw [placedMatches, List.map_map, matched]
    conv => rhs; rw [← List.zipIdx_map_fst 0 (GroupJoin.matchesOf lookup (outerKey o)).toList, List.map_map]
    rfl

/-- A place says which outer element its result is of, and which of the element's matches. -/
theorem getElem?_of_mem_placed {lookup : Lookup K I} {outer : List O} {q : Placed O I}
    (member : q ∈ placed outerKey lookup 0 outer) :
    outer[q.outerNumber]? = some q.outer ∧
      (GroupJoin.matchesOf lookup (outerKey q.outer))[q.matchNumber]? = some q.inner := by
  obtain ⟨⟨o, k⟩, outside, inside⟩ := List.mem_flatMap.1 member
  obtain ⟨⟨i, p⟩, there, rfl⟩ := List.mem_map.1 inside
  refine ⟨List.mem_zipIdx_iff_getElem?.1 outside, ?_⟩
  rw [← Array.getElem?_toList]
  exact List.mem_zipIdx_iff_getElem?.1 there

/-! ## One pull -/

/-- A join has gone on to the result at a place: it has passed these outer elements, up to the one of
the result, which is the last one taken. -/
structure GoneOn (outer : Source O) (lookup : Lookup K I) (q : Placed O I) (passed : List O)
    (next : Join O K I) : Prop where
  rest : outer.rest = passed ++ next.outer.rest
  sized : next.outer.sized = outer.sized
  table : next.lookup = lookup
  taken : next.outer.taken = outer.taken + passed.length
  number : next.outer.taken = q.outerNumber + 1

/-- Passing over outer elements comes to the end or to the first that has a match, and asks for the
key of each of them once. -/
theorem run_advanceM (lookup : Lookup K I) (outer : Source O) (calls : List (Call O I)) :
    (placed outerKey lookup outer.taken outer.rest = [] ∧
        (advanceM lookup outer.sized (notedKey outerKey) (notedResult result) outer.rest outer.taken).run calls =
          ((none, { outer := outer.drained, lookup := lookup }), calls ++ outer.rest.map .key)) ∨
      ∃ q passed next, placed outerKey lookup outer.taken outer.rest = q :: next.ahead outerKey ∧
        (advanceM lookup outer.sized (notedKey outerKey) (notedResult result) outer.rest outer.taken).run calls =
          ((some (result q.outer q.inner), next), calls ++ passed.map .key ++ [.result q.outer q.inner]) ∧
        GoneOn outer lookup q passed next := by
  obtain ⟨rest, sized, taken⟩ := outer
  -- an element that is passed over has its key asked for, and the others follow behind this call
  induction rest generalizing taken calls with
  | nil => exact Or.inl ⟨rfl, by rw [List.map_nil, List.append_nil]; rfl⟩
  | cons o rest ih =>
    rw [placed_cons, placedMatches]
    rcases advanceM_cons outerKey (fun o => Call.note (.key o)) (notedResult result) lookup sized o rest taken with
      ⟨none, onward⟩ | ⟨i, group, found, first, given⟩
    · have run : (advanceM lookup sized (notedKey outerKey) (notedResult result) (o :: rest) taken).run calls =
          (advanceM lookup sized (notedKey outerKey) (notedResult result) rest (taken + 1)).run (calls ++ [.key o]) :=
        congrArg (StateT.run · calls) onward
      rw [none, run]
      rcases ih (calls ++ [.key o]) (taken + 1) with ⟨empty, ended⟩ | ⟨q, passed, next, head, given, gone⟩
      · refine Or.inl ⟨empty, ?_⟩
        rw [ended, List.map_cons, List.append_assoc, Source.drained, Source.drained, List.length_cons,
          Nat.add_right_comm taken 1]
        rfl
      · refine Or.inr ⟨q, o :: passed, next, head, ?_, ?_, gone.sized, gone.table, ?_, gone.number⟩
        · rw [given, List.map_cons, List.append_assoc calls]
          rfl
        · rw [List.cons_append, ← gone.rest]
        · rw [gone.taken, List.length_cons]
          dsimp only
          omega
    · have run : (advanceM lookup sized (notedKey outerKey) (notedResult result) (o :: rest) taken).run calls =
          ((some (result o i), ⟨⟨rest, sized, taken + 1⟩, lookup, some ⟨o, group, 1⟩⟩),
            calls ++ [.key o] ++ [.result o i]) :=
        congrArg (StateT.run · calls) given
      refine Or.inr ⟨⟨taken, o, 0, i⟩, [o], _, ?_, run, rfl, rfl, rfl, rfl, rfl⟩
      have all : (lookup.elementsAt group).toList.zipIdx = (i, 0) :: (lookup.elementsAt group).toList.zipIdx.drop 1 :=
        eq_cons_drop_of_getElem? (by rw [List.getElem?_zipIdx, Array.getElem?_toList, first]; rfl)
      rw [found, all]
      rfl

/-- A pull gives the first result ahead, taking no outer element behind the one of the result, or
finds none ahead and takes all that are left. -/
theorem notedPull_cases (j : Join O K I) (begun : j.current ≠ none → 0 < j.outer.taken) (calls : List (Call O I)) :
    (j.ahead outerKey = [] ∧ notedPull outerKey result (j, calls) =
        (none, { outer := j.outer.drained, lookup := j.lookup }, calls ++ j.outer.rest.map .key)) ∨
      ∃ q passed next, j.ahead outerKey = q :: next.ahead outerKey ∧
        notedPull outerKey result (j, calls) =
          (some (result q.outer q.inner), next, calls ++ passed.map .key ++ [.result q.outer q.inner]) ∧
        GoneOn j.outer j.lookup q passed next := by
  unfold notedPull pullM ahead
  rcases j.ready?_cases with ⟨idle, past⟩ | ⟨c, i, current, item, ready⟩
  · have nothing : j.placedLeft = [] := by
      unfold placedLeft
      cases current : j.current with
      | none => rfl
      | some c => simp [List.drop_of_length_le, past c current]
    rw [idle, nothing, List.nil_append]
    dsimp only
    rcases run_advanceM outerKey result j.lookup j.outer calls with
      ⟨empty, ended⟩ | ⟨q, passed, next, head, given, gone⟩
    · exact Or.inl ⟨empty, by rw [ended]⟩
    · exact Or.inr ⟨q, passed, next, head, by rw [given], gone⟩
  · have taken := begun (by rw [current]; nofun)
    rw [ready]
    refine Or.inr ⟨⟨j.outer.taken - 1, c.outer, c.position, i⟩, [],
      { j with current := some { c with position := c.position + 1 } }, ?_,
      by rw [List.map_nil, List.append_nil]; rfl, rfl, rfl, rfl, rfl, by dsimp only; omega⟩
    unfold placedLeft
    rw [current]
    dsimp only
    rw [List.drop_eq_getElem?_toList_append, List.getElem?_zipIdx, Array.getElem?_toList, item, Nat.zero_add]
    rfl

/-! ## Any number of pulls -/

/-- A join has taken the first `k` outer elements, has asked for the key of each of these once and in
order, and for the first `m` results of all that it gives. -/
structure Streamed (outer : List O) (sized : Bool) (lookup : Lookup K I) (k m : Nat)
    (s : Join O K I × List (Call O I)) : Prop where
  source : s.1.outer = ⟨outer.drop k, sized, k⟩
  keys : Call.keys s.2 = outer.take k
  results : Call.results s.2 = ((start (.ofList outer sized) lookup).toList outerKey Prod.mk).take m

/-- A join between two pulls, the first `m` results given: what is ahead are the others, and the notes
tell the outer elements taken and the results given. -/
structure Underway (outer : List O) (sized : Bool) (lookup : Lookup K I) (m : Nat)
    (s : Join O K I × List (Call O I)) : Prop where
  rest : outer = Call.keys s.2 ++ s.1.outer.rest
  taken : s.1.outer.taken = (Call.keys s.2).length
  sized : s.1.outer.sized = sized
  table : s.1.lookup = lookup
  begun : s.1.current ≠ none → 0 < s.1.outer.taken
  ahead : s.1.ahead outerKey = (placed outerKey lookup 0 outer).drop m
  results : Call.results s.2 = ((placed outerKey lookup 0 outer).take m).map Placed.pair

section Run

variable {outer : List O} {sized : Bool} {lookup : Lookup K I} {m : Nat} {s : Join O K I × List (Call O I)}

theorem map_pair_placed_start :
    (placed outerKey lookup 0 outer).map Placed.pair = (start (.ofList outer sized) lookup).toList outerKey Prod.mk := by
  rw [map_pair_placed, toList_eq, pending_start]
  exact (List.map_id _).symm

theorem underway_start (outer : List O) (sized : Bool) (lookup : Lookup K I) :
    Underway outerKey outer sized lookup 0 (start (.ofList outer sized) lookup, []) where
  rest := rfl
  taken := rfl
  sized := rfl
  table := rfl
  begun := nofun
  ahead := rfl
  results := rfl

theorem Underway.streamed (underway : Underway outerKey outer sized lookup m s) :
    Streamed outerKey outer sized lookup s.1.outer.taken m s where
  source := by
    have rest : s.1.outer.rest = outer.drop s.1.outer.taken := by
      rw [underway.taken, underway.rest]
      exact List.drop_left.symm
    rw [← rest, ← underway.sized]
  keys := by
    rw [underway.taken, underway.rest]
    exact List.take_left.symm
  results := by rw [underway.results, List.map_take, map_pair_placed_start]

/-- A pull with a result ahead gives it, and comes to the outer element of the result. -/
theorem Underway.given (underway : Underway outerKey outer sized lookup m s) {q : Placed O I}
    (there : (placed outerKey lookup 0 outer)[m]? = some q) :
    (notedPull outerKey result s).1 = some (result q.outer q.inner) ∧
      Underway outerKey outer sized lookup (m + 1) (notedPull outerKey result s).2 ∧
      (notedPull outerKey result s).2.1.outer.taken = q.outerNumber + 1 := by
  obtain ⟨j, calls⟩ := s
  have first : j.ahead outerKey = q :: (placed outerKey lookup 0 outer).drop (m + 1) := by
    rw [underway.ahead, List.drop_eq_getElem?_toList_append, there]
    rfl
  rcases notedPull_cases outerKey result j underway.begun calls with
    ⟨empty, -⟩ | ⟨q', passed, next, head, pulled, gone⟩
  · rw [empty] at first
    cases first
  · rw [head] at first
    obtain ⟨rfl, behind⟩ := List.cons.inj first
    rw [pulled]
    refine ⟨rfl, ⟨?_, ?_, gone.sized.trans underway.sized, gone.table.trans underway.table, ?_, behind, ?_⟩,
      gone.number⟩
    · simpa [← gone.rest] using underway.rest
    · simpa [gone.taken] using underway.taken
    · intro _
      rw [gone.number]
      exact Nat.succ_pos _
    · rw [List.take_add_one, there, List.map_append, ← underway.results]
      simp [Placed.pair]

/-- A pull with no result ahead gives none, and has come to the end of the outer elements. -/
theorem Underway.ended (underway : Underway outerKey outer sized lookup m s)
    (past : (placed outerKey lookup 0 outer)[m]? = none) :
    (notedPull outerKey result s).1 = none ∧
      Underway outerKey outer sized lookup (m + 1) (notedPull outerKey result s).2 ∧
      (notedPull outerKey result s).2.1.outer.taken = outer.length := by
  obtain ⟨j, calls⟩ := s
  have bound := List.getElem?_eq_none_iff.1 past
  have nothing : j.ahead outerKey = [] := by
    rw [underway.ahead, List.drop_of_length_le bound]
  rcases notedPull_cases outerKey result j underway.begun calls with
    ⟨-, pulled⟩ | ⟨q, passed, next, head, -, -⟩
  · rw [pulled]
    have taken := underway.taken
    have whole := congrArg List.length underway.rest
    dsimp only at taken whole
    rw [List.length_append, ← taken] at whole
    refine ⟨rfl, ⟨?_, ?_, underway.sized, underway.table, nofun, ?_, ?_⟩, whole.symm⟩
    · simpa [Source.drained] using underway.rest
    · simpa [Source.drained] using taken
    · rw [List.drop_of_length_le (Nat.le_succ_of_le bound)]
      rfl
    · have results := underway.results
      rw [List.take_of_length_le bound] at results
      rw [List.take_of_length_le (Nat.le_succ_of_le bound)]
      simpa using results
  · rw [head] at nothing
    cases nothing

/-- Between any two pulls a join is underway. -/
theorem underway_after (outer : List O) (sized : Bool) (lookup : Lookup K I) (m : Nat) :
    Underway outerKey outer sized lookup m
      (Pull.after (notedPull outerKey result) m (start (.ofList outer sized) lookup, [])) := by
  induction m with
  | zero => exact underway_start outerKey outer sized lookup
  | succ m ih =>
    rw [Pull.after_succ]
    cases there : (placed outerKey lookup 0 outer)[m]? with
    | some q => exact (ih.given outerKey result there).2.1
    | none => exact (ih.ended outerKey result there).2.1

end Run

/-- A join streams. Its results have places; before the first pull nothing is taken and nothing is
called; the pull for the result at a place takes the outer elements up to the one there, and a pull
without a result has taken them all. -/
structure Streams (outer : List O) (sized : Bool) (lookup : Lookup K I) : Prop where
  places : ∀ q ∈ placed outerKey lookup 0 outer, outer[q.outerNumber]? = some q.outer ∧
    (GroupJoin.matchesOf lookup (outerKey q.outer))[q.matchNumber]? = some q.inner
  pairs : (placed outerKey lookup 0 outer).map Placed.pair =
    (start (.ofList outer sized) lookup).toList outerKey Prod.mk
  started : Streamed outerKey outer sized lookup 0 0 (start (.ofList outer sized) lookup, [])
  given : ∀ m q, (placed outerKey lookup 0 outer)[m]? = some q →
    let pulled := notedPull outerKey result
      (Pull.after (notedPull outerKey result) m (start (.ofList outer sized) lookup, []))
    pulled.1 = some (result q.outer q.inner) ∧
      Streamed outerKey outer sized lookup (q.outerNumber + 1) (m + 1) pulled.2
  ended : ∀ m, (placed outerKey lookup 0 outer).length ≤ m →
    let pulled := notedPull outerKey result
      (Pull.after (notedPull outerKey result) m (start (.ofList outer sized) lookup, []))
    pulled.1 = none ∧ Streamed outerKey outer sized lookup outer.length (m + 1) pulled.2

theorem streams_start (outer : List O) (sized : Bool) (lookup : Lookup K I) :
    Streams outerKey result outer sized lookup where
  places _ member := getElem?_of_mem_placed outerKey member
  pairs := map_pair_placed_start outerKey
  started := (underway_start outerKey outer sized lookup).streamed
  given m q there := by
    obtain ⟨given, underway, taken⟩ :=
      (underway_after outerKey result outer sized lookup m).given outerKey result there
    exact ⟨given, taken ▸ underway.streamed⟩
  ended m past := by
    obtain ⟨none, underway, taken⟩ :=
      (underway_after outerKey result outer sized lookup m).ended outerKey result (List.getElem?_eq_none_iff.2 past)
    exact ⟨none, taken ▸ underway.streamed⟩

/-- **Joins stream without looking ahead**, whatever the equality does. Indexing the inner side leaves
the outer source alone; then the pull for the result of an outer element and one of its matches
has taken exactly the outer elements up to this one, with one call of the key selector for each, and
the results given are all that the result selector was called for. -/
theorem index_streams (e : Equality K) {config : Config} (usable : config.validate = .ok ())
    (word : config.initialBuckets ≤ Text.wordMax) (outer : List O) (sized : Bool) (inner : List I)
    (innerKey : I → Option K) :
    (∃ l, Lookup.index e config inner innerKey = .ok l ∧ Streams outerKey result outer sized l) ∨
      Lookup.IndexOverflow e config inner innerKey := by
  rcases Lookup.index_cases e usable word inner innerKey with ⟨l, indexed, -⟩ | overflow
  · exact Or.inl ⟨l, indexed, streams_start outerKey result outer sized l⟩
  · exact Or.inr overflow

/-- Outer keys of which the first two have no match. -/
def waiting : List (Option Nat) := [none, some 9, some 3, some 1]

/-- Inner elements under keys that neighbour one another. -/
def lined : List (Option Nat × Nat) := [(some 2, 20), (some 3, 30), (none, 0)]

/-- The first pull passes over two outer elements, the second takes none, the third takes the last. -/
theorem index_streams_neighbours :
    Config.validate ⟨1, 4⟩ = .ok () ∧ 1 ≤ Text.wordMax ∧
      ∃ l, Lookup.index Lookup.neighbours ⟨1, 4⟩ lined Prod.fst = .ok l ∧
        Streams id Prod.mk waiting false l ∧
        placed id l 0 waiting =
          [⟨2, some 3, 0, (some 2, 20)⟩, ⟨2, some 3, 1, (some 3, 30)⟩, ⟨3, some 1, 0, (some 2, 20)⟩,
            ⟨3, some 1, 1, (some 3, 30)⟩] := by
  refine ⟨rfl, by decide, ?_⟩
  rcases index_streams id Prod.mk Lookup.neighbours (rfl : Config.validate ⟨1, 4⟩ = .ok ()) (by decide) waiting false
      lined Prod.fst with ⟨l, indexed, streams⟩ | ⟨n, excess, -⟩
  · have computed : (Lookup.index Lookup.neighbours ⟨1, 4⟩ lined Prod.fst).map (fun l => placed id l 0 waiting) =
        .ok [⟨2, some 3, 0, (some 2, 20)⟩, ⟨2, some 3, 1, (some 3, 30)⟩, ⟨3, some 1, 0, (some 2, 20)⟩,
          ⟨3, some 1, 1, (some 3, 30)⟩] := by rfl
    rw [indexed] at computed
    exact ⟨l, indexed, streams, Except.ok.inj computed⟩
  · exact absurd excess.lt_count (by decide)

end Join

end Collate
