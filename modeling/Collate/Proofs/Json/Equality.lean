import Collate.Proofs.Comparer.Folded
import Collate.Proofs.Comparer.Tolerance
import Collate.Proofs.Json.Number

/-!
# Equality of JSON values and its hash

Equality goes through two values side by side, so what holds of it follows from the parts of the
two. On well-formed values it is reflexive and symmetric, and equal values are written to a digest
alike: a number as the number of the 64-bit format that it becomes, which is one for numbers that
tie. It is transitive where no two different integers become one number of that format.
-/

set_option autoImplicit false

namespace Collate

/-! ## Lists side by side -/

section Pairs

variable {α β γ : Type} {R S : α → β → Prop} {as : List α} {bs : List β}

theorem exists_of_mem_of_forall₂ {a : α} (paired : List.Forall₂ R as bs) (member : a ∈ as) :
    ∃ b ∈ bs, R a b := by
  induction paired with
  | nil => cases member
  | cons related _ ih =>
    rcases List.mem_cons.1 member with rfl | later
    · exact ⟨_, List.mem_cons_self, related⟩
    · obtain ⟨b, there, related⟩ := ih later
      exact ⟨b, List.mem_cons_of_mem _ there, related⟩

theorem forall₂_imp_of_mem (imp : ∀ a ∈ as, ∀ b ∈ bs, R a b → S a b) (paired : List.Forall₂ R as bs) :
    List.Forall₂ S as bs := by
  induction paired with
  | nil => exact List.Forall₂.nil
  | cons related _ ih =>
    apply List.Forall₂.cons
    · exact imp _ List.mem_cons_self _ List.mem_cons_self related
    · apply ih
      intro a aIn b bIn
      exact imp a (List.mem_cons_of_mem _ aIn) b (List.mem_cons_of_mem _ bIn)

theorem forall₂_trans_of_mem {Q : β → γ → Prop} {T : α → γ → Prop} {cs : List γ}
    (trans : ∀ a ∈ as, ∀ b ∈ bs, ∀ c ∈ cs, R a b → Q b c → T a c) (first : List.Forall₂ R as bs)
    (second : List.Forall₂ Q bs cs) : List.Forall₂ T as cs := by
  induction first generalizing cs with
  | nil =>
    cases second
    exact List.Forall₂.nil
  | cons related _ ih =>
    cases second with
    | cons related' second =>
      apply List.Forall₂.cons
      · exact trans _ List.mem_cons_self _ List.mem_cons_self _ List.mem_cons_self related related'
      · refine ih ?_ second
        intro a aIn b bIn c cIn
        exact trans a (List.mem_cons_of_mem _ aIn) b (List.mem_cons_of_mem _ bIn) c (List.mem_cons_of_mem _ cIn)

end Pairs

namespace Json

variable {fold : Bool} {a b c : Json}

/-- Two values are taken apart side by side as long as they are of one type. -/
theorem sideBySide {motive : Json → Json → Prop} (apart : ∀ a b, a.rank ≠ b.rank → motive a b)
    (null : motive .null .null) (bool : ∀ x y, motive (.bool x) (.bool y))
    (number : ∀ m n, motive (.number m) (.number n)) (string : ∀ s t, motive (.string s) (.string t))
    (array : ∀ as bs, (∀ a ∈ as, ∀ b ∈ bs, motive a b) → motive (.array as) (.array bs))
    (object : ∀ as bs, (∀ f ∈ as, ∀ g ∈ bs, motive f.2 g.2) → motive (.object as) (.object bs))
    (a b : Json) : motive a b := by
  by_cases ranks : a.rank = b.rank
  · induction a generalizing b with
    | null =>
      cases b <;> cases ranks
      exact null
    | bool x =>
      cases b <;> cases ranks
      exact bool x _
    | number m =>
      cases b <;> cases ranks
      exact number m _
    | string s =>
      cases b <;> cases ranks
      exact string s _
    | array as ih =>
      cases b <;> cases ranks
      apply array
      intro a member b _
      by_cases ranks : a.rank = b.rank
      · exact ih a member b ranks
      · exact apart a b ranks
    | object as ih =>
      cases b <;> cases ranks
      apply object
      intro f member g _
      by_cases ranks : f.2.rank = g.2.rank
      · exact ih f member g.2 ranks
      · exact apart f.2 g.2 ranks
  · exact apart a b ranks

/-! ## Equality by parts -/

section Parts

variable {s t : String} {m n : Number} {items items' : List Json} {fields fields' : List (String × Json)}

/-- What of a string counts in a comparison: its bytes, or their lower case. -/
def letters (fold : Bool) (s : String) : List UInt8 :=
  if fold then (Text.utf8 s).map Text.lowerByte else Text.utf8 s

theorem equals_string_iff : equals fold (.string s) (.string t) = true ↔ letters fold s = letters fold t := by
  cases fold with
  | false => simp [equals, letters, Text.utf8_inj]
  | true => simp [equals, letters, Equality.ignoreAsciiCase_iff, Text.folded]

theorem equals_number_iff : equals fold (.number m) (.number n) = true ↔ m.compare n = .eq := by
  simp [equals]

theorem equals_array_iff :
    equals fold (.array items) (.array items') = true ↔
      List.Forall₂ (fun a b => equals fold a b = true) items items' := by
  rw [equals]
  induction items generalizing items' with
  | nil => cases items' <;> simp [equalsItems]
  | cons item rest ih => cases items' <;> simp [equalsItems, ih]

theorem equalsFields_iff :
    equalsFields fold fields fields' = true ↔
      ∀ field ∈ fields, ∃ value, fieldOf? field.1 fields' = some value ∧ equals fold field.2 value = true := by
  induction fields with
  | nil => simp [equalsFields]
  | cons field rest ih =>
    obtain ⟨name, value⟩ := field
    cases found : fieldOf? name fields' <;> simp [equalsFields, found, ih]

/-- Objects are equal when they are field by field: same names, equal values. -/
theorem equals_object_iff (ordered : Increasing fields) (ordered' : Increasing fields') :
    equals fold (.object fields) (.object fields') = true ↔
      List.Forall₂ (fun f g => f.1 = g.1 ∧ equals fold f.2 g.2 = true) fields fields' := by
  rw [equals, Bool.and_eq_true, beq_iff_eq, equalsFields_iff]
  constructor
  · rintro ⟨count, found⟩
    refine forall₂_of_forall_mem (R := fun a b => equals fold a b = true) ordered ordered' count ?_
    intro field member
    obtain ⟨value, there, same⟩ := found field member
    exact ⟨value, mem_of_fieldOf? there, same⟩
  · intro paired
    refine ⟨paired.length_eq, fun field member => ?_⟩
    obtain ⟨other, there, named, same⟩ := exists_of_mem_of_forall₂ paired member
    refine ⟨other.2, ?_, same⟩
    rw [fieldOf?_eq_some_iff ordered', named]
    exact there

/-- Values of different types are not equal. -/
theorem rank_eq_of_equals (same : equals fold a b = true) : a.rank = b.rank := by
  cases a <;> cases b <;> first | rfl | cases same

end Parts

/-! ## Laws -/

/-- A well-formed value is equal to itself. -/
theorem equals_self (wf : a.WellFormed) : equals fold a a = true := by
  induction a with
  | null => rfl
  | bool b => simp [equals]
  | number n => exact equals_number_iff.2 n.compare_self
  | string s => exact equals_string_iff.2 rfl
  | array items ih =>
    rw [equals_array_iff, List.forall₂_same]
    intro item member
    exact ih item member (wellFormed_array_iff.1 wf item member)
  | object fields ih =>
    obtain ⟨ordered, wf⟩ := wellFormed_object_iff.1 wf
    rw [equals_object_iff ordered ordered, List.forall₂_same]
    intro field member
    exact ⟨rfl, ih field member (wf field member)⟩

/-- Of two well-formed values, each is equal to the other or none is. -/
theorem equals_symm (aWf : a.WellFormed) (bWf : b.WellFormed) (same : equals fold a b = true) :
    equals fold b a = true := by
  induction a, b using sideBySide with
  | apart a b ranks => exact absurd (rank_eq_of_equals same) ranks
  | null => rfl
  | bool x y =>
    simp only [equals, beq_iff_eq] at same ⊢
    exact same.symm
  | number m n =>
    rw [equals_number_iff] at same ⊢
    rw [Number.compare_swap, same]
    rfl
  | string s t =>
    rw [equals_string_iff] at same ⊢
    exact same.symm
  | array as bs ih =>
    rw [wellFormed_array_iff] at aWf bWf
    rw [equals_array_iff] at same ⊢
    apply List.Forall₂.flip
    refine forall₂_imp_of_mem ?_ same
    intro x xIn y yIn same
    exact ih x xIn y yIn (aWf x xIn) (bWf y yIn) same
  | object as bs ih =>
    obtain ⟨aOrdered, aWf⟩ := wellFormed_object_iff.1 aWf
    obtain ⟨bOrdered, bWf⟩ := wellFormed_object_iff.1 bWf
    rw [equals_object_iff aOrdered bOrdered] at same
    rw [equals_object_iff bOrdered aOrdered]
    apply List.Forall₂.flip
    refine forall₂_imp_of_mem ?_ same
    rintro f fIn g gIn ⟨named, same⟩
    exact ⟨named.symm, ih f fIn g gIn (aWf f fIn) (bWf g gIn) same⟩

/-- Equality is passed on where no two different integers become one number. -/
theorem equals_trans {I : Int → Prop} (faithful : Number.Faithful I) (aOver : a.Over I) (bOver : b.Over I)
    (cOver : c.Over I) (ab : equals fold a b = true) (bc : equals fold b c = true) :
    equals fold a c = true := by
  induction a, b using sideBySide generalizing c with
  | apart a b ranks => exact absurd (rank_eq_of_equals ab) ranks
  | null => exact bc
  | bool x y =>
    have same : x = y := by simpa [equals] using ab
    rwa [same]
  | number l m =>
    have ranks := rank_eq_of_equals bc
    cases c <;> cases ranks
    rw [equals_number_iff] at ab bc ⊢
    exact (Number.totalPreorderOn_compare faithful).eq_trans aOver.number bOver.number cOver.number ab bc
  | string s t =>
    have ranks := rank_eq_of_equals bc
    cases c <;> cases ranks
    rw [equals_string_iff] at ab bc ⊢
    exact ab.trans bc
  | array as bs ih =>
    have ranks := rank_eq_of_equals bc
    cases c <;> cases ranks
    rw [equals_array_iff] at ab bc ⊢
    refine forall₂_trans_of_mem ?_ ab bc
    intro x xIn y yIn z zIn
    exact ih x xIn y yIn (aOver.item x xIn) (bOver.item y yIn) (cOver.item z zIn)
  | object as bs ih =>
    have ranks := rank_eq_of_equals bc
    cases c <;> cases ranks
    have aOrdered := (wellFormed_object_iff.1 aOver.wellFormed).1
    have bOrdered := (wellFormed_object_iff.1 bOver.wellFormed).1
    have cOrdered := (wellFormed_object_iff.1 cOver.wellFormed).1
    rw [equals_object_iff aOrdered bOrdered] at ab
    rw [equals_object_iff bOrdered cOrdered] at bc
    rw [equals_object_iff aOrdered cOrdered]
    refine forall₂_trans_of_mem ?_ ab bc
    rintro f fIn g gIn h hIn ⟨named, fg⟩ ⟨named', gh⟩
    exact ⟨named.trans named', ih f fIn g gIn (aOver.field f fIn) (bOver.field g gIn) (cOver.field h hIn) fg gh⟩

/-! ## Writes -/

theorem writes_string (s : String) :
    writes fold (.string s) = .byte 3 :: ((letters fold s).map .byte ++ if fold then [] else [.byte 0xFF]) := by
  cases fold <;> simp [writes, letters, Write.ofText, Write.ofFoldedText]

theorem writesItems_eq_of_forall₂ {as bs : List Json}
    (alike : List.Forall₂ (fun a b => writes fold a = writes fold b) as bs) :
    writesItems fold as = writesItems fold bs := by
  induction alike with
  | nil => rfl
  | cons same _ ih => rw [writesItems, writesItems, same, ih]

/-- Equal values are written to a digest alike. -/
theorem writes_eq_of_equals (aWf : a.WellFormed) (bWf : b.WellFormed) (same : equals fold a b = true) :
    writes fold a = writes fold b := by
  induction a, b using sideBySide with
  | apart a b ranks => exact absurd (rank_eq_of_equals same) ranks
  | null => rfl
  | bool x y =>
    have same : x = y := by simpa [equals] using same
    rw [same]
  | number m n =>
    have one := Number.toDouble_eq_of_compare_eq (wellFormed_number_iff.1 aWf) (wellFormed_number_iff.1 bWf)
      (equals_number_iff.1 same)
    rw [writes, writes, one]
  | string s t => rw [writes_string, writes_string, equals_string_iff.1 same]
  | array as bs ih =>
    rw [wellFormed_array_iff] at aWf bWf
    rw [equals_array_iff] at same
    have alike : List.Forall₂ (fun a b => writes fold a = writes fold b) as bs := by
      refine forall₂_imp_of_mem ?_ same
      intro x xIn y yIn same
      exact ih x xIn y yIn (aWf x xIn) (bWf y yIn) same
    rw [writes, writes, same.length_eq, writesItems_eq_of_forall₂ alike]
  | object as bs _ =>
    -- the fields do not count, and there are equally many
    have count : as.length = bs.length := by
      rw [equals, Bool.and_eq_true, beq_iff_eq] at same
      exact same.1
    rw [writes, writes, count]

/-- On well-formed values the test is reflexive and symmetric and the hash respects it. -/
theorem toleranceOn_equality (fold : Bool) : (equality fold).ToleranceOn WellFormed where
  refl _ wf := equals_self wf
  symm _ _ aWf bWf := equals_symm aWf bWf
  hash_eq _ _ aWf bWf same := congrArg digest (writes_eq_of_equals aWf bWf same)

/-- Where no two different integers become one number, it is an equivalence with its hash. -/
theorem lawfulOn_equality {I : Int → Prop} (fold : Bool) (faithful : Number.Faithful I) :
    (equality fold).LawfulOn (Over I) where
  refl _ covered := equals_self covered.wellFormed
  symm _ _ aOver bOver := equals_symm aOver.wellFormed bOver.wellFormed
  hash_eq _ _ aOver bOver same := congrArg digest (writes_eq_of_equals aOver.wellFormed bOver.wellFormed same)
  trans _ _ _ aOver bOver cOver := equals_trans faithful aOver bOver cOver

/-- Equality is reflexive and symmetric, and equal values are written to a digest alike, so that
they have one hash whatever the digest makes of the writes. -/
theorem equals_digested_alike (fold : Bool) (aWf : a.WellFormed) (bWf : b.WellFormed) :
    equals fold a a = true ∧ equals fold a b = equals fold b a ∧
      (equals fold a b = true → writes fold a = writes fold b ∧
        (equality fold).hash a = (equality fold).hash b ∧
        ∀ hasher : List Write → UInt64, hasher (writes fold a) = hasher (writes fold b)) := by
  have laws := toleranceOn_equality fold
  refine ⟨laws.refl a aWf, laws.equals_comm aWf bWf, fun same => ?_⟩
  have alike := writes_eq_of_equals aWf bWf same
  exact ⟨alike, laws.hash_eq a b aWf bWf same, fun hasher => congrArg hasher alike⟩

/-- An integer and a number, two zeros and two cases of letters, in items and in fields. -/
theorem equals_digested_alike_mixed :
    let a := Json.array [.number (.int 1), .object [("Zero", .number (.float ⟨true, 0⟩))], .string "Dev"]
    let b := Json.array [.number (.float (Floating.ofInt 1)), .object [("Zero", .number (.int 0))], .string "DEV"]
    a.WellFormed ∧ b.WellFormed ∧ equals true a b = true ∧ (equality true).hash a = (equality true).hash b := by
  intro a b
  have aWf : a.WellFormed := by
    constructor
    · simp [a, Sorted, SortedItems, SortedFields, Increasing]
    · simp [a, Numbers, NumbersItems, NumbersFields, Number.Representable]
      decide +kernel
  have bWf : b.WellFormed := by
    constructor
    · simp [b, Sorted, SortedItems, SortedFields, Increasing]
    · simp [b, Numbers, NumbersItems, NumbersFields, Number.Representable]
      decide +kernel
  have same : equals true a b = true := by decide +kernel
  exact ⟨aWf, bWf, same, ((equals_digested_alike true aWf bWf).2.2 same).2.1⟩

end Json

end Collate
