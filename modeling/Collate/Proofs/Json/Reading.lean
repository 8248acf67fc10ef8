import Collate.Json.Reader
import Collate.Proofs.Json.Value

/-!
# Values that are read are well-formed

Fields are put in place one by one, which keeps them in order, and a number is taken only as an
integer of a machine word or as a finite number. So whatever text a value is read from, its objects
are in order and its numbers representable.
-/

set_option autoImplicit false

namespace Collate.Json

/-! ## Fields put in place -/

section Fields

variable {fields : List (String × Json)} {name : String} {value : Json}

theorem mem_insertField {field : String × Json} (member : field ∈ insertField name value fields) :
    field = (name, value) ∨ field ∈ fields := by
  induction fields with
  | nil => exact Or.inl (List.mem_singleton.1 member)
  | cons first rest ih =>
    rw [insertField] at member
    split at member
    · exact List.mem_cons.1 member
    · rcases List.mem_cons.1 member with rfl | later
      · exact Or.inl rfl
      · exact Or.inr (List.mem_cons_of_mem _ later)
    · rcases List.mem_cons.1 member with rfl | later
      · exact Or.inr List.mem_cons_self
      · exact (ih later).imp_right (List.mem_cons_of_mem _)

theorem increasing_insertField (increasing : Increasing fields) :
    Increasing (insertField name value fields) := by
  induction fields with
  | nil => trivial
  | cons first rest ih =>
    obtain ⟨before, ordered⟩ := increasing_cons_iff.1 increasing
    rw [insertField]
    split
    · next less => exact ⟨less, increasing⟩
    · next same =>
      rw [Std.LawfulEqOrd.eq_of_compare same]
      exact increasing_cons_iff.2 ⟨before, ordered⟩
    · next greater =>
      refine increasing_cons_iff.2 ⟨?_, ih ordered⟩
      intro other member
      rcases mem_insertField member with rfl | later
      · exact Std.OrientedCmp.lt_of_gt greater
      · exact before other later

/-- A field put in place is found under its name, and every other field as before. -/
theorem fieldOf?_insertField (other : String) :
    fieldOf? other (insertField name value fields) = if other = name then some value else fieldOf? other fields := by
  have front (rest : List (String × Json)) :
      fieldOf? other ((name, value) :: rest) = if other = name then some value else fieldOf? other rest := by
    simp only [fieldOf?, eq_comm]
  induction fields with
  | nil => exact front []
  | cons first rest ih =>
    obtain ⟨k, v⟩ := first
    rw [insertField]
    split
    · exact front _
    · next same =>
      rw [front, fieldOf?, ← Std.LawfulEqOrd.eq_of_compare same]
      split
      · rfl
      · next apart => rw [if_neg (Ne.symm apart)]
    · next greater =>
      have apart : k ≠ name := by
        rintro rfl
        rw [Std.ReflOrd.compare_self] at greater
        cases greater
      rw [fieldOf?, ih, fieldOf?]
      split
      · next same => rw [if_neg (same ▸ apart)]
      · rfl

/-- Of two fields put in place under one name only the later is left. -/
theorem insertField_insertField (first : Json) :
    insertField name value (insertField name first fields) = insertField name value fields := by
  have self (v w : Json) (rest : List (String × Json)) : insertField name v ((name, w) :: rest) = (name, v) :: rest := by
    rw [insertField, Std.ReflOrd.compare_self]
  induction fields with
  | nil => exact self value first []
  | cons field rest ih =>
    cases order : compare name field.1 with
    | lt => simp only [insertField, order, Std.ReflOrd.compare_self]
    | eq => simp only [insertField, order, Std.ReflOrd.compare_self]
    | gt => simp only [insertField, order, ih]

/-- A field goes behind all whose names come before its own. -/
theorem insertField_eq_append (before : ∀ field ∈ fields, compare field.1 name = .lt) :
    insertField name value fields = fields ++ [(name, value)] := by
  induction fields with
  | nil => rfl
  | cons field rest ih =>
    obtain ⟨first, before⟩ := List.forall_mem_cons.1 before
    rw [insertField, Std.OrientedCmp.gt_of_lt first, ih before, List.cons_append]

/-- Fields in order are the object of them. -/
theorem ofFields_eq (increasing : Increasing fields) : ofFields fields = .object fields := by
  suffices ∀ acc, Increasing (acc ++ fields) →
      fields.foldl (fun acc f => insertField f.1 f.2 acc) acc = acc ++ fields by
    rw [ofFields, this [] increasing, List.nil_append]
  clear increasing
  induction fields with
  | nil => simp
  | cons field rest ih =>
    intro acc increasing
    have before : ∀ other ∈ acc, compare other.1 field.1 = .lt := by
      rw [increasing_iff, List.map_append, List.pairwise_append] at increasing
      intro other member
      exact increasing.2.2 _ (List.mem_map_of_mem member) _ List.mem_cons_self
    rw [List.foldl_cons, insertField_eq_append before, ih _ (by rwa [List.append_assoc]), List.append_assoc]
    rfl

theorem wellFormed_insertField (wf : (Json.object fields).WellFormed) (fresh : value.WellFormed) :
    (Json.object (insertField name value fields)).WellFormed := by
  rw [wellFormed_object_iff] at wf ⊢
  refine ⟨increasing_insertField wf.1, ?_⟩
  intro field member
  rcases mem_insertField member with rfl | later
  · exact fresh
  · exact wf.2 field later

theorem wellFormed_ofFields (wf : ∀ field ∈ fields, field.2.WellFormed) : (ofFields fields).WellFormed := by
  rw [ofFields]
  refine List.foldlRecOn fields _ (motive := fun acc => (Json.object acc).WellFormed) ?_ ?_
  · exact wellFormed_object_iff.2 ⟨trivial, nofun⟩
  · intro acc sofar field member
    exact wellFormed_insertField sofar (wf field member)

end Fields

/-! ## Literals -/

theorem Numeral.representable_int? {n : Numeral} {i : Int} (taken : n.int? = some i) :
    (Number.int i).Representable := by
  simp only [int?, Text.wordMax] at taken
  simp only [Number.Representable]
  grind

theorem isFinite_scaled? {significand : Nat} {exponent : Int} {x : Double}
    (made : scaled? significand exponent = some x) : x.isFinite = true := by
  unfold scaled? at made
  dsimp only at made
  split at made
  · next finite =>
    cases made
    exact finite
  · cases made

theorem Numeral.isFinite_magnitude? {significand : Nat} {point : Int} {power : Option (Bool × List Char)} {x : Double}
    (made : magnitude? significand point power = some x) : x.isFinite = true := by
  unfold magnitude? at made
  split at made
  · exact isFinite_scaled? made
  · dsimp only at made
    split at made
    · exact isFinite_scaled? made
    · split at made
      · cases made
        rfl
      · cases made

theorem Numeral.representable_number? {n : Numeral} {x : Number} (taken : n.number? = some x) :
    x.Representable := by
  rw [number?] at taken
  split at taken
  · next i whole =>
    cases taken
    exact representable_int? whole
  · obtain ⟨y, read, rfl⟩ := Option.map_eq_some_iff.1 taken
    obtain ⟨z, made, rfl⟩ := Option.map_eq_some_iff.1 read
    have finite : z.isFinite = true := isFinite_magnitude? made
    exact finite

namespace Literal

mutual
/-- The value of a literal is well-formed. -/
theorem wellFormed_valueIn? {room : Nat} : ∀ {l : Literal} {v : Json}, l.valueIn? room = some v → v.WellFormed
  | .null, v, taken => by
    cases taken
    exact wellFormed_null
  | .bool b, v, taken => by
    cases taken
    exact ⟨trivial, trivial⟩
  | .number n, v, taken => by
    obtain ⟨x, number, rfl⟩ := Option.map_eq_some_iff.1 taken
    exact wellFormed_number_iff.2 (Numeral.representable_number? number)
  | .string pieces, v, taken => by
    obtain ⟨s, -, rfl⟩ := Option.map_eq_some_iff.1 taken
    exact wellFormed_string s
  | .array items, v, taken => by
    rw [valueIn?] at taken
    split at taken
    · cases taken
    · obtain ⟨values, some, rfl⟩ := Option.map_eq_some_iff.1 taken
      exact wellFormed_array_iff.2 (wellFormed_itemsIn? some)
  | .object fields, v, taken => by
    rw [valueIn?] at taken
    split at taken
    · cases taken
    · obtain ⟨values, some, rfl⟩ := Option.map_eq_some_iff.1 taken
      exact wellFormed_ofFields (wellFormed_fieldsIn? some)
/-- So are the values of items. -/
theorem wellFormed_itemsIn? {room : Nat} : ∀ {ls : List Literal} {vs : List Json},
    itemsIn? room ls = some vs → ∀ v ∈ vs, v.WellFormed
  | [], vs, taken => by
    cases taken
    nofun
  | l :: ls, vs, taken => by
    rw [itemsIn?] at taken
    split at taken
    · next v rest first others =>
      cases taken
      exact List.forall_mem_cons.2 ⟨wellFormed_valueIn? first, wellFormed_itemsIn? others⟩
    · cases taken
/-- So are the values of fields. -/
theorem wellFormed_fieldsIn? {room : Nat} : ∀ {ls : List (List Piece × Literal)} {fs : List (String × Json)},
    fieldsIn? room ls = some fs → ∀ f ∈ fs, f.2.WellFormed
  | [], fs, taken => by
    cases taken
    nofun
  | (name, l) :: ls, fs, taken => by
    rw [fieldsIn?] at taken
    split at taken
    · next k v rest _ first others =>
      cases taken
      exact List.forall_mem_cons.2 ⟨wellFormed_valueIn? first, wellFormed_fieldsIn? others⟩
    · cases taken
end

end Literal

/-- The value of a whole text is well-formed. -/
theorem wellFormed_of_parseChars? {cs : List Char} {v : Json} (read : parseChars? cs = some v) :
    v.WellFormed := by
  obtain ⟨l, -, taken⟩ := Option.bind_eq_some_iff.1 read
  exact Literal.wellFormed_valueIn? taken

end Collate.Json
