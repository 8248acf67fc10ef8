import Collate.Comparer.Order

/-!
# Comparisons that are total preorders

A comparison need not be lawful on every value of the key type, so the laws are asked of it on
the keys that occur. They pass through keys, directions and chains, which is all that a level and
an ordering make of a comparison.
-/

set_option autoImplicit false

namespace Collate.Comparison

variable {K : Type} {cmp : Comparison K} {S : K → Prop} {a b c : K}

/-- A comparison is a total preorder on the keys of which `S` holds. -/
structure TotalPreorderOn (cmp : Comparison K) (S : K → Prop) : Prop where
  swap : ∀ a b, S a → S b → cmp b a = (cmp a b).swap
  trans : ∀ a b c, S a → S b → S c → cmp a b ≠ .gt → cmp b c ≠ .gt → cmp a c ≠ .gt

theorem totalPreorderOn_iff : cmp.TotalPreorderOn S ↔ Std.TransCmp fun a b : { k // S k } => cmp a b := by
  constructor
  · intro laws
    refine { eq_swap := fun {a b} => laws.swap b a b.2 a.2, isLE_trans := fun {a b c} ab bc => ?_ }
    have trans := laws.trans a b c a.2 b.2 c.2
    exact Ordering.isLE_iff_ne_gt.2 (trans (Ordering.isLE_iff_ne_gt.1 ab) (Ordering.isLE_iff_ne_gt.1 bc))
  · intro laws
    refine ⟨fun a b sa sb => laws.eq_swap (a := ⟨b, sb⟩) (b := ⟨a, sa⟩), fun a b c sa sb sc ab bc => ?_⟩
    have trans := laws.isLE_trans (a := ⟨a, sa⟩) (b := ⟨b, sb⟩) (c := ⟨c, sc⟩)
    exact Ordering.isLE_iff_ne_gt.1 (trans (Ordering.isLE_iff_ne_gt.2 ab) (Ordering.isLE_iff_ne_gt.2 bc))

theorem totalPreorderOn_of_transCmp [laws : Std.TransCmp cmp] (S : K → Prop) : cmp.TotalPreorderOn S where
  swap _ _ _ _ := laws.eq_swap
  trans _ _ _ _ _ _ ab bc :=
    Ordering.isLE_iff_ne_gt.1 (laws.isLE_trans (Ordering.isLE_iff_ne_gt.2 ab) (Ordering.isLE_iff_ne_gt.2 bc))

namespace TotalPreorderOn

variable (laws : cmp.TotalPreorderOn S)
include laws

theorem mono {T : K → Prop} (narrower : ∀ k, T k → S k) : cmp.TotalPreorderOn T where
  swap a b ta tb := laws.swap a b (narrower a ta) (narrower b tb)
  trans a b c ta tb tc := laws.trans a b c (narrower a ta) (narrower b tb) (narrower c tc)

theorem self (sa : S a) : cmp a a = .eq := by
  have swap := laws.swap a a sa sa
  cases answer : cmp a a <;> rw [answer] at swap <;> first | rfl | cases swap

theorem ne_gt_of_ne_lt (sa : S a) (sb : S b) (after : cmp a b ≠ .lt) : cmp b a ≠ .gt := by
  rw [laws.swap a b sa sb]
  cases answer : cmp a b
  · exact absurd answer after
  · decide
  · decide

theorem eq_of_ne_gt (sa : S a) (sb : S b) (ab : cmp a b ≠ .gt) (ba : cmp b a ≠ .gt) : cmp a b = .eq := by
  rw [laws.swap a b sa sb] at ba
  cases answer : cmp a b
  · exact absurd (by rw [answer]; rfl) ba
  · rfl
  · exact absurd answer ab

theorem eq_symm (sa : S a) (sb : S b) (ab : cmp a b = .eq) : cmp b a = .eq := by
  rw [laws.swap a b sa sb, ab]
  rfl

theorem eq_trans (sa : S a) (sb : S b) (sc : S c) (ab : cmp a b = .eq) (bc : cmp b c = .eq) :
    cmp a c = .eq := by
  have ba := laws.eq_symm sa sb ab
  have cb := laws.eq_symm sb sc bc
  refine laws.eq_of_ne_gt sa sc (laws.trans a b c sa sb sc ?_ ?_) (laws.trans c b a sc sb sa ?_ ?_) <;>
    simp [ab, bc, ba, cb]

theorem lt_trans (sa : S a) (sb : S b) (sc : S c) (ab : cmp a b = .lt) (bc : cmp b c = .lt) :
    cmp a c = .lt := by
  rw [totalPreorderOn_iff] at laws
  exact laws.lt_trans (a := ⟨a, sa⟩) (b := ⟨b, sb⟩) (c := ⟨c, sc⟩) ab bc

theorem lt_of_lt_of_ne_gt (sa : S a) (sb : S b) (sc : S c) (ab : cmp a b = .lt) (bc : cmp b c ≠ .gt) :
    cmp a c = .lt := by
  rw [totalPreorderOn_iff] at laws
  exact laws.lt_of_lt_of_isLE (a := ⟨a, sa⟩) (b := ⟨b, sb⟩) (c := ⟨c, sc⟩) ab (Ordering.isLE_iff_ne_gt.2 bc)

/-- Elements compared by their keys. -/
theorem comap {α : Type} (key : α → K) :
    Comparison.TotalPreorderOn (fun a b => cmp (key a) (key b)) fun a => S (key a) where
  swap a b := laws.swap (key a) (key b)
  trans a b c := laws.trans (key a) (key b) (key c)

/-- A comparison read in a direction. -/
theorem direct (d : Direction) : Comparison.TotalPreorderOn (fun a b => d.apply (cmp a b)) S := by
  cases d with
  | ascending => exact laws
  | descending =>
    have opposite : Comparison.TotalPreorderOn (fun a b => cmp b a) S :=
      ⟨fun a b sa sb => laws.swap b a sb sa, fun a b c sa sb sc ab bc => laws.trans c b a sc sb sa bc ab⟩
    refine ⟨fun a b sa sb => ?_, fun a b c sa sb sc => ?_⟩
    · rw [Direction.apply, Direction.apply, laws.swap a b sa sb]
    · simp only [Direction.apply, ← laws.swap a b sa sb, ← laws.swap b c sb sc, ← laws.swap a c sa sc]
      exact opposite.trans a b c sa sb sc

/-- Keys that may be absent, those that are in front. -/
theorem nullable : cmp.nullable.TotalPreorderOn fun key => ∀ k ∈ key, S k := by
  constructor
  · intro a b sa sb
    cases a <;> cases b
    · rfl
    · rfl
    · rfl
    · exact laws.swap _ _ (sa _ rfl) (sb _ rfl)
  · intro a b c sa sb sc ab bc
    cases a with
    | none => cases c <;> nofun
    | some a =>
      cases b with
      | none => exact absurd rfl ab
      | some b =>
        cases c with
        | none => exact absurd rfl bc
        | some c => exact laws.trans a b c (sa a rfl) (sb b rfl) (sc c rfl) ab bc

/-- A second comparison decides what the first leaves tied. -/
theorem lexicographic {next : Comparison K} (nextLaws : next.TotalPreorderOn S) :
    Comparison.TotalPreorderOn (fun a b => (cmp a b).then (next a b)) S := by
  rw [totalPreorderOn_iff] at laws nextLaws ⊢
  exact inferInstanceAs (Std.TransCmp
    (compareLex (fun a b : { k // S k } => cmp a b) fun a b : { k // S k } => next a b))

/-- Lists of keys compared key by key, a list before its extensions. -/
theorem lists : Comparison.TotalPreorderOn (List.compareLex cmp) fun keys => ∀ k ∈ keys, S k := by
  rw [totalPreorderOn_iff] at laws
  -- over the keys that occur, such a comparison is the library's
  have carried (l m : List K) (inside : ∀ k ∈ l, S k) (inside' : ∀ k ∈ m, S k) :
      List.compareLex cmp l m =
        List.compareLex (fun a b : { k // S k } => cmp a b) (l.attachWith S inside) (m.attachWith S inside') := by
    induction l generalizing m with
    | nil => cases m <;> rfl
    | cons a l ih =>
      cases m with
      | nil => rfl
      | cons b m =>
        rw [List.attachWith_cons, List.attachWith_cons, List.compareLex_cons_cons, List.compareLex_cons_cons, ih]
  have library : Comparison.TotalPreorderOn (List.compareLex fun a b : { k // S k } => cmp a b) fun _ => True :=
    totalPreorderOn_of_transCmp fun _ => True
  constructor
  · intro l m inside inside'
    rw [carried l m inside inside', carried m l inside' inside]
    exact library.swap _ _ trivial trivial
  · intro l m n inside inside' inside''
    rw [carried l m inside inside', carried m n inside' inside'', carried l n inside inside'']
    exact library.trans _ _ _ trivial trivial trivial

end TotalPreorderOn

end Collate.Comparison
