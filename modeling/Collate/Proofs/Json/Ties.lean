import Collate.Proofs.Json.Preorder
import Collate.Proofs.Json.Text
import Collate.Proofs.Sort.Ordered

/-!
# Ties of the order and equality

Values that tie are equal, for objects tie only if their texts are one, and texts tell values
apart. The converse fails for objects that are equal but not the same: their texts differ where a
number is written in another way or, with `fold` set, a letter in another case. Apart from objects
the two recursions agree, so equal values tie exactly if the objects that face each other in them
are the same.
-/

set_option autoImplicit false

namespace Collate.Json

variable {fold : Bool} {a b : Json}

mutual
/-- The objects that face each other in two values, one by one through arrays, are the same. -/
def FacingSame : Json → Json → Prop
  | .array as, .array bs => FacingSameItems as bs
  | .object fs, .object gs => fs = gs
  | _, _ => True
/-- `FacingSame` for items one by one, as far as both lists go. -/
def FacingSameItems : List Json → List Json → Prop
  | a :: as, b :: bs => FacingSame a b ∧ FacingSameItems as bs
  | _, _ => True
end

/-! ## Ties by parts -/

section Parts

variable {as bs : List Json}

theorem forall₂_and_facingSame_iff {R : Json → Json → Prop} :
    List.Forall₂ (fun a b => R a b ∧ FacingSame a b) as bs ↔ List.Forall₂ R as bs ∧ FacingSameItems as bs := by
  induction as generalizing bs with
  | nil => cases bs <;> simp [FacingSameItems]
  | cons a as ih => cases bs <;> simp [FacingSameItems, ih, and_assoc, and_left_comm]

theorem orderItems_eq_iff :
    orderItems fold as bs = .eq ↔ List.Forall₂ (fun a b => order fold a b = .eq) as bs := by
  induction as generalizing bs with
  | nil => cases bs <;> simp [orderItems]
  | cons a as ih => cases bs <;> simp [orderItems, Ordering.then_eq_eq, ih]

theorem order_string_eq_iff {s t : String} :
    order fold (.string s) (.string t) = .eq ↔ letters fold s = letters fold t := by
  cases fold with
  | false => rw [order_string_false, Std.LawfulEqOrd.compare_eq_iff_eq, letters, letters]; simp [Text.utf8_inj]
  | true => rw [order_string_true, Std.LawfulEqOrd.compare_eq_iff_eq]

/-- Objects tie only if they are the same. -/
theorem order_object_eq_iff {fs gs : List (String × Json)} :
    order fold (.object fs) (.object gs) = .eq ↔ fs = gs := by
  rw [order, Std.LawfulEqOrd.compare_eq_iff_eq]
  constructor
  · intro texts
    exact Json.object.inj (text_inj texts)
  · rintro rfl
    rfl

end Parts

/-! ## Ties and equality -/

/-- Well-formed values tie exactly if they are equal and the objects facing each other are the same. -/
theorem tie_iff (aWf : a.WellFormed) (bWf : b.WellFormed) :
    order fold a b = .eq ↔ equals fold a b = true ∧ FacingSame a b := by
  induction a, b using sideBySide with
  | apart a b ranks =>
    have untied : order fold a b ≠ .eq := by
      rw [order_of_rank_ne ranks]
      intro tie
      exact ranks (Std.LawfulEqOrd.eq_of_compare tie)
    have unequal : equals fold a b ≠ true := fun same => ranks (rank_eq_of_equals same)
    simp [untied, unequal]
  | null => simp [order, equals, FacingSame, rank]
  | bool x y => simp [order, equals, FacingSame]
  | number m n => simp [order, equals, FacingSame]
  | string s t => simp [order_string_eq_iff, equals_string_iff, FacingSame]
  | array as bs ih =>
    rw [wellFormed_array_iff] at aWf bWf
    rw [order, orderItems_eq_iff, equals_array_iff, FacingSame, ← forall₂_and_facingSame_iff]
    constructor
    · exact forall₂_imp_of_mem fun x xIn y yIn => (ih x xIn y yIn (aWf x xIn) (bWf y yIn)).1
    · exact forall₂_imp_of_mem fun x xIn y yIn => (ih x xIn y yIn (aWf x xIn) (bWf y yIn)).2
  | object fs gs _ =>
    rw [order_object_eq_iff, FacingSame]
    constructor
    · rintro rfl
      exact ⟨equals_self aWf, rfl⟩
    · exact fun h => h.2

/-! ## Sorting before grouping -/

section Blocks

variable {α : Type} {I : Int → Prop} {xs : List α} {key : α → Json}

/-- Elements sorted by a key of JSON values, in one direction. -/
def sortedBy (fold : Bool) (direction : Direction) (key : α → Json) (xs : List α) : List α :=
  (Sort.Ordered.orderBy (.ofList xs true) ⟨Json, key, order fold, direction⟩).toList

theorem stablySorted_sortedBy (fold : Bool) (faithful : Number.Faithful I) (covered : ∀ x ∈ xs, (key x).Over I)
    (direction : Direction) :
    Comparison.TotalPreorderOn (fun x y => direction.apply (order fold (key x) (key y))) (· ∈ xs) ∧
      Sort.StablySorted (fun x y => direction.apply (order fold (key x) (key y))) xs
        (sortedBy fold direction key xs) := by
  have keys := (totalPreorderOn_order fold faithful).mono (T := fun k => ∃ x ∈ xs, key x = k) <| by
    rintro k ⟨x, member, rfl⟩
    exact covered x member
  have lawful : (Sort.Ordered.orderBy (.ofList xs true) ⟨Json, key, order fold, direction⟩).Lawful := by
    intro l member
    rw [List.mem_singleton.1 member]
    exact keys
  have chain (x y : α) : Sort.rankChain [⟨Json, key, order fold, direction⟩] x y =
      direction.apply (order fold (key x) (key y)) := by
    simp [Sort.rankChain, Sort.Level.rank]
  have laws := lawful.chain
  have sorted := lawful.stablySorted
  exact ⟨funext₂ chain ▸ laws, funext₂ chain ▸ sorted⟩

/-- Where equal keys face each other with the same objects only, elements with equal keys come out
of the sort as one block, in the order in which they stood. -/
theorem exists_block_sortedBy (faithful : Number.Faithful I) (covered : ∀ x ∈ xs, (key x).Over I)
    (facing : ∀ x ∈ xs, ∀ y ∈ xs, equals fold (key x) (key y) = true → FacingSame (key x) (key y))
    (direction : Direction) {x : α} (member : x ∈ xs) :
    ∃ before after, sortedBy fold direction key xs =
      before ++ xs.filter (fun y => equals fold (key x) (key y)) ++ after := by
  obtain ⟨laws, sorted⟩ := stablySorted_sortedBy fold faithful covered direction
  have ties : Sort.tied (fun x y => direction.apply (order fold (key x) (key y))) x xs =
      xs.filter fun y => equals fold (key x) (key y) := by
    apply List.filter_congr
    intro y there
    have xWf := (covered x member).wellFormed
    have yWf := (covered y there).wellFormed
    have directed : direction.apply (order fold (key x) (key y)) = .eq ↔ order fold (key x) (key y) = .eq := by
      cases direction <;> cases order fold (key x) (key y) <;> decide
    rw [Bool.eq_iff_iff, decide_eq_true_eq, directed, tie_iff xWf yWf]
    exact ⟨fun h => h.1, fun same => ⟨same, facing x member y there same⟩⟩
  rw [← ties]
  exact sorted.exists_block laws member

end Blocks

/-- **When ties are equality.** Values tie exactly if they are equal and the objects facing each other
in them are the same. So a sort by a key puts elements with equal keys next to each other, in the
order in which they stood, if equal keys differ in no objects and no two integers in the keys
become one number. -/
theorem ties_are_equal_keys (fold : Bool) :
    (∀ a b : Json, a.WellFormed → b.WellFormed →
      (order fold a b = .eq ↔ equals fold a b = true ∧ FacingSame a b)) ∧
    ∀ (α : Type) (I : Int → Prop) (key : α → Json) (xs : List α), Number.Faithful I →
      (∀ x ∈ xs, (key x).Over I) →
      (∀ x ∈ xs, ∀ y ∈ xs, equals fold (key x) (key y) = true → FacingSame (key x) (key y)) →
      ∀ (direction : Direction), ∀ x ∈ xs, ∃ before after, sortedBy fold direction key xs =
        before ++ xs.filter (fun y => equals fold (key x) (key y)) ++ after := by
  refine ⟨fun a b => tie_iff, ?_⟩
  intro α I key xs faithful covered facing direction x member
  exact exists_block_sortedBy faithful covered facing direction member

/-- Arrays of an integer and of its number are brought together. -/
theorem ties_are_equal_keys_arrays :
    let one := Json.array [.number (.int 1)]
    let same := Json.array [.number (.float (Floating.ofInt 1))]
    ∃ before after, sortedBy true .descending id [one, .null, same] = before ++ [one, same] ++ after := by
  intro one same
  have covered : ∀ x ∈ [one, .null, same], x.Over fun n => n.natAbs ≤ 2 ^ 53 := by
    intro x member
    simp only [List.mem_cons, List.not_mem_nil, or_false] at member
    have finite : (Floating.ofInt 1 : Double).isFinite = true := Floating.isFinite_ofInt (by decide)
    rcases member with rfl | rfl | rfl <;> refine ⟨⟨?_, ?_⟩, ?_⟩ <;>
      simp [one, same, Sorted, SortedItems, Numbers, NumbersItems, Number.Representable, Number.Among, finite]
  have facing : ∀ x ∈ [one, .null, same], ∀ y ∈ [one, .null, same], equals true x y = true → FacingSame x y := by
    simp [one, same, FacingSame, FacingSameItems]
  have block := (ties_are_equal_keys true).2 Json _ id [one, .null, same] Number.faithful_of_natAbs_le covered facing
    .descending one (by simp)
  have equal : equals true one one = true ∧ equals true one same = true ∧ equals true one .null = false := by
    decide +kernel
  simpa [List.filter, equal] using block

/-- Equal objects in which a number or a letter is written in another way do not tie, and another
object comes between them. -/
theorem equal_objects_apart :
    let first := Json.object [("x", .number (.float (Floating.ofInt 1)))]
    let between := Json.object [("x", .number (.float ⟨false, 0x3FF8000000000000⟩))]
    let last := Json.object [("x", .number (.int 1))]
    let small := Json.object [("x", .string "a")]
    let capital := Json.object [("x", .string "A")]
    (first.WellFormed ∧ between.WellFormed ∧ last.WellFormed ∧ small.WellFormed ∧ capital.WellFormed) ∧
    (∀ fold, equals fold first last = true ∧ equals fold first between = false ∧
      order fold first between = .lt ∧ order fold between last = .lt) ∧
    equals true small capital = true ∧ order true small capital = .gt := by
  refine ⟨⟨?_, ?_, ?_, ?_, ?_⟩, by decide +kernel, by decide +kernel, by decide +kernel⟩
  all_goals
    refine ⟨by simp [Sorted, SortedFields, Increasing], ?_⟩
    simp [Numbers, NumbersFields, Number.Representable]
  · exact Floating.isFinite_ofInt (by decide)
  · decide

end Collate.Json
