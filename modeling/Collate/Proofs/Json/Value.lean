import Collate.Json.Basic
import Mathlib.Data.List.Perm.Subperm

/-!
# Well-formed JSON values

A value that can be read holds integers of a machine word and finite numbers, and its objects list
each field once, by increasing name. Such an object is determined by what is found under its
names, so comparing it with another name by name is comparing the two field by field.
-/

set_option autoImplicit false

namespace Collate

namespace Number

/-- An integer that a machine word holds, with a sign or without, or a finite number. -/
def Representable : Number → Prop
  | .int n => -0x8000000000000000 ≤ n ∧ n ≤ 0xFFFFFFFFFFFFFFFF
  | .float x => x.isFinite = true

/-- If the number is an integer, it is one of a class. -/
def Among (I : Int → Prop) : Number → Prop
  | .int n => I n
  | .float _ => True

end Number

namespace Json

/-- A value is built from its items, or from the values of its fields. -/
@[induction_eliminator]
theorem induction {motive : Json → Prop} (null : motive .null) (bool : ∀ b, motive (.bool b))
    (number : ∀ n, motive (.number n)) (string : ∀ s, motive (.string s))
    (array : ∀ items, (∀ item ∈ items, motive item) → motive (.array items))
    (object : ∀ fields, (∀ field ∈ fields, motive field.2) → motive (.object fields)) :
    (v : Json) → motive v
  | .null => null
  | .bool b => bool b
  | .number n => number n
  | .string s => string s
  | .array items => array items fun item _ => induction null bool number string array object item
  | .object fields => object fields fun field _ => induction null bool number string array object field.2
termination_by v => sizeOf v
decreasing_by
  · have smaller := List.sizeOf_lt_of_mem ‹item ∈ items›
    simp
    omega
  · have smaller := List.sizeOf_lt_of_mem ‹field ∈ fields›
    obtain ⟨name, value⟩ := field
    simp at smaller ⊢
    omega

mutual
/-- Something holds of every number in a value. -/
def Numbers (P : Number → Prop) : Json → Prop
  | .number n => P n
  | .array items => NumbersItems P items
  | .object fields => NumbersFields P fields
  | _ => True
/-- `Numbers` for each of some values. -/
def NumbersItems (P : Number → Prop) : List Json → Prop
  | [] => True
  | item :: rest => Numbers P item ∧ NumbersItems P rest
/-- `Numbers` for the value of each of some fields. -/
def NumbersFields (P : Number → Prop) : List (String × Json) → Prop
  | [] => True
  | (_, value) :: rest => Numbers P value ∧ NumbersFields P rest
end

section Parts

variable {P : Number → Prop} {items : List Json} {fields : List (String × Json)}

theorem numbers_array_iff : (Json.array items).Numbers P ↔ ∀ item ∈ items, item.Numbers P := by
  rw [Numbers]
  induction items with
  | nil => simp [NumbersItems]
  | cons item rest ih => simp [NumbersItems, ih]

theorem numbers_object_iff : (Json.object fields).Numbers P ↔ ∀ field ∈ fields, field.2.Numbers P := by
  rw [Numbers]
  induction fields with
  | nil => simp [NumbersFields]
  | cons field rest ih =>
    obtain ⟨name, value⟩ := field
    simp [NumbersFields, ih]

theorem sorted_array_iff : (Json.array items).Sorted ↔ ∀ item ∈ items, item.Sorted := by
  rw [Sorted]
  induction items with
  | nil => simp [SortedItems]
  | cons item rest ih => simp [SortedItems, ih]

theorem sorted_object_iff :
    (Json.object fields).Sorted ↔ Increasing fields ∧ ∀ field ∈ fields, field.2.Sorted := by
  have values : SortedFields fields ↔ ∀ field ∈ fields, field.2.Sorted := by
    induction fields with
    | nil => simp [SortedFields]
    | cons field rest ih =>
      obtain ⟨name, value⟩ := field
      simp [SortedFields, ih]
  rw [Sorted, values]

end Parts

/-- A value as reading gives it. -/
structure WellFormed (v : Json) : Prop where
  sorted : v.Sorted
  numbers : v.Numbers Number.Representable

/-- A well-formed value all of whose integers are of a class. -/
structure Over (I : Int → Prop) (v : Json) : Prop where
  wellFormed : v.WellFormed
  integers : v.Numbers (Number.Among I)

section Parts

variable {I : Int → Prop} {items : List Json} {fields : List (String × Json)}

theorem wellFormed_null : Json.null.WellFormed := ⟨trivial, trivial⟩

theorem wellFormed_string (s : String) : (Json.string s).WellFormed := ⟨trivial, trivial⟩

theorem wellFormed_number_iff {n : Number} : (Json.number n).WellFormed ↔ n.Representable :=
  ⟨fun h => h.numbers, fun h => ⟨trivial, h⟩⟩

theorem wellFormed_array_iff : (Json.array items).WellFormed ↔ ∀ item ∈ items, item.WellFormed := by
  constructor
  · intro h item member
    exact ⟨sorted_array_iff.1 h.sorted item member, numbers_array_iff.1 h.numbers item member⟩
  · intro h
    exact ⟨sorted_array_iff.2 fun item member => (h item member).sorted,
      numbers_array_iff.2 fun item member => (h item member).numbers⟩

theorem wellFormed_object_iff :
    (Json.object fields).WellFormed ↔ Increasing fields ∧ ∀ field ∈ fields, field.2.WellFormed := by
  constructor
  · intro h
    have sorted := sorted_object_iff.1 h.sorted
    exact ⟨sorted.1, fun field member =>
      ⟨sorted.2 field member, numbers_object_iff.1 h.numbers field member⟩⟩
  · rintro ⟨increasing, h⟩
    exact ⟨sorted_object_iff.2 ⟨increasing, fun field member => (h field member).sorted⟩,
      numbers_object_iff.2 fun field member => (h field member).numbers⟩

theorem Over.number {n : Number} (covered : (Json.number n).Over I) : n.Representable ∧ n.Among I :=
  ⟨covered.wellFormed.numbers, covered.integers⟩

theorem Over.item (covered : (Json.array items).Over I) : ∀ item ∈ items, item.Over I := by
  intro item member
  exact ⟨wellFormed_array_iff.1 covered.wellFormed item member, numbers_array_iff.1 covered.integers item member⟩

theorem Over.field (covered : (Json.object fields).Over I) : ∀ field ∈ fields, field.2.Over I := by
  intro field member
  exact ⟨(wellFormed_object_iff.1 covered.wellFormed).2 field member,
    numbers_object_iff.1 covered.integers field member⟩

end Parts

/-! ## Fields -/

section Fields

variable {fields : List (String × Json)} {name : String} {value : Json}

theorem ne_of_compare_lt {a b : String} (less : compare a b = .lt) : a ≠ b := by
  rintro rfl
  rw [Std.ReflOrd.compare_self] at less
  cases less

theorem increasing_iff :
    Increasing fields ↔ (fields.map Prod.fst).Pairwise fun a b => compare a b = .lt := by
  induction fields with
  | nil => simp [Increasing]
  | cons field rest ih =>
    obtain ⟨a, v⟩ := field
    cases rest with
    | nil => simp [Increasing]
    | cons next rest =>
      obtain ⟨b, w⟩ := next
      rw [Increasing, ih, List.map_cons (l := (b, w) :: rest), List.pairwise_cons]
      apply and_congr_left
      intro ordered
      constructor
      · intro first name member
        rcases List.mem_cons.1 member with rfl | later
        · exact first
        · exact Std.TransCmp.lt_trans first (List.rel_of_pairwise_cons ordered later)
      · intro first
        exact first b List.mem_cons_self

theorem increasing_cons_iff {field : String × Json} :
    Increasing (field :: fields) ↔ (∀ other ∈ fields, compare field.1 other.1 = .lt) ∧ Increasing fields := by
  rw [increasing_iff, increasing_iff, List.map_cons, List.pairwise_cons, List.forall_mem_map]

theorem mem_of_fieldOf? (found : fieldOf? name fields = some value) : (name, value) ∈ fields := by
  induction fields with
  | nil => cases found
  | cons field rest ih =>
    rw [fieldOf?] at found
    split at found
    · next same =>
      cases found
      rw [← same]
      exact List.mem_cons_self
    · exact List.mem_cons_of_mem _ (ih found)

/-- Under a name stands the value of the one field that has it. -/
theorem fieldOf?_eq_some_iff (increasing : Increasing fields) :
    fieldOf? name fields = some value ↔ (name, value) ∈ fields := by
  refine ⟨mem_of_fieldOf?, fun member => ?_⟩
  induction fields with
  | nil => cases member
  | cons field rest ih =>
    obtain ⟨before, increasing⟩ := increasing_cons_iff.1 increasing
    rw [fieldOf?]
    rcases List.mem_cons.1 member with rfl | later
    · exact if_pos rfl
    · rw [if_neg (ne_of_compare_lt (before _ later))]
      exact ih increasing later

end Fields

/-- Equally many names in order that are all found among others in order are those. -/
theorem names_eq_of_subset {as bs : List (String × Json)} (aOrdered : Increasing as) (bOrdered : Increasing bs)
    (count : as.length = bs.length) (inside : as.map Prod.fst ⊆ bs.map Prod.fst) :
    as.map Prod.fst = bs.map Prod.fst := by
  rw [increasing_iff] at aOrdered bOrdered
  have once : (as.map Prod.fst).Nodup := aOrdered.imp ne_of_compare_lt
  have perm := (List.subperm_of_subset once inside).perm_of_length_le (by simp [count])
  refine perm.eq_of_pairwise ?_ aOrdered bOrdered
  intro a b _ _ ab ba
  have gt := Std.OrientedCmp.gt_of_lt ab
  rw [ba] at gt
  cases gt

/-- Fields in order under equally many names that are all found among others in order are paired
with them one by one. -/
theorem forall₂_of_forall_mem {R : Json → Json → Prop} {as bs : List (String × Json)}
    (aOrdered : Increasing as) (bOrdered : Increasing bs) (count : as.length = bs.length)
    (found : ∀ a ∈ as, ∃ b, (a.1, b) ∈ bs ∧ R a.2 b) :
    List.Forall₂ (fun a b => a.1 = b.1 ∧ R a.2 b.2) as bs := by
  have names : as.map Prod.fst = bs.map Prod.fst := by
    apply names_eq_of_subset aOrdered bOrdered count
    intro name member
    obtain ⟨a, here, rfl⟩ := List.mem_map.1 member
    obtain ⟨b, there, -⟩ := found a here
    exact List.mem_map.2 ⟨_, there, rfl⟩
  clear count
  induction as generalizing bs with
  | nil =>
    cases bs with
    | nil => exact List.Forall₂.nil
    | cons b bs => cases names
  | cons a as ih =>
    cases bs with
    | nil => cases names
    | cons b bs =>
      obtain ⟨same, names⟩ := List.cons.inj names
      change a.1 = b.1 at same
      obtain ⟨aFirst, aOrdered⟩ := increasing_cons_iff.1 aOrdered
      obtain ⟨bFirst, bOrdered⟩ := increasing_cons_iff.1 bOrdered
      refine List.Forall₂.cons ⟨same, ?_⟩ (ih aOrdered bOrdered ?_ names)
      · obtain ⟨value, there, related⟩ := found a List.mem_cons_self
        rcases List.mem_cons.1 there with rfl | later
        · exact related
        · exact absurd same.symm (ne_of_compare_lt (bFirst (a.1, value) later))
      · intro other member
        obtain ⟨value, there, related⟩ := found other (List.mem_cons_of_mem _ member)
        rcases List.mem_cons.1 there with rfl | later
        · exact absurd same (ne_of_compare_lt (aFirst other member))
        · exact ⟨value, later, related⟩

end Json

end Collate
