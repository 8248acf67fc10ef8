import Collate.Proofs.Comparer.Preorder

/-!
# Stable sorts

A list is a stable sort of another if it holds the same elements, each before none that it comes
after, and those that tie with one another as they stood. Under a total preorder there is only
one such list, and merge sort gives it.
-/

set_option autoImplicit false

namespace Collate.Sort

variable {α β : Type} {cmp : Comparison α} {S : α → Prop} {xs ys zs : List α}

/-- The elements that tie with one of them, as they stand. -/
def tied (cmp : Comparison α) (x : α) (xs : List α) : List α := xs.filter fun y => cmp x y = .eq

theorem tied_lexicographic (cmp next : Comparison α) (x : α) (xs : List α) :
    tied (fun a b => (cmp a b).then (next a b)) x xs = tied next x (tied cmp x xs) := by
  simp only [tied, List.filter_filter, Ordering.then_eq_eq, Bool.decide_and, Bool.and_comm]

theorem tied_comm (cmp next : Comparison α) (x : α) (xs : List α) :
    tied cmp x (tied next x xs) = tied next x (tied cmp x xs) := by
  simp only [tied, List.filter_filter, Bool.and_comm]

theorem tied_swap (cmp : Comparison α) (x : α) (xs : List α) :
    tied (fun a b => (cmp a b).swap) x xs = tied cmp x xs := by
  simp only [tied, Ordering.swap_eq_eq]

theorem tied_reverse (cmp : Comparison α) (x : α) (xs : List α) :
    tied cmp x xs.reverse = (tied cmp x xs).reverse :=
  List.filter_reverse

/-- A list sorted, with its ties as they stood. -/
structure StablySorted (cmp : Comparison α) (xs ys : List α) : Prop where
  perm : ys.Perm xs
  ordered : ys.Pairwise fun a b => cmp a b ≠ .gt
  ties : ∀ x ∈ xs, tied cmp x ys = tied cmp x xs

/-- Lists in order that hold the same elements with the same ties are equal. -/
theorem eq_of_ordered_of_ties (laws : cmp.TotalPreorderOn S) (inside : ∀ x ∈ ys, S x) (perm : ys.Perm zs)
    (ysOrdered : ys.Pairwise fun a b => cmp a b ≠ .gt) (zsOrdered : zs.Pairwise fun a b => cmp a b ≠ .gt)
    (ties : ∀ x ∈ ys, tied cmp x ys = tied cmp x zs) : ys = zs := by
  induction ys generalizing zs with
  | nil => exact perm.nil_eq
  | cons y ys ih =>
    cases zs with
    | nil => exact absurd perm.length_eq (by simp)
    | cons z zs =>
      have sy : S y := inside y List.mem_cons_self
      have sz : S z := inside z (perm.mem_iff.2 List.mem_cons_self)
      have yz : cmp y z ≠ .gt := by
        rcases List.mem_cons.1 (perm.mem_iff.2 (List.mem_cons_self (a := z))) with rfl | later
        · simp [laws.self sz]
        · exact List.rel_of_pairwise_cons ysOrdered later
      have zy : cmp z y ≠ .gt := by
        rcases List.mem_cons.1 (perm.mem_iff.1 (List.mem_cons_self (a := y))) with rfl | later
        · simp [laws.self sy]
        · exact List.rel_of_pairwise_cons zsOrdered later
      -- the heads tie, so each is the first of the ties of the other
      have tie := laws.eq_of_ne_gt sy sz yz zy
      have same : y = z := by
        have heads := ties y List.mem_cons_self
        rw [tied, tied, List.filter_cons_of_pos (by simp [laws.self sy]),
          List.filter_cons_of_pos (by simp [tie])] at heads
        exact (List.cons.inj heads).1
      subst same
      have rest : ∀ x ∈ ys, tied cmp x ys = tied cmp x zs := by
        intro x member
        have both := ties x (List.mem_cons_of_mem y member)
        unfold tied at both ⊢
        rw [List.filter_cons, List.filter_cons] at both
        split at both
        · exact (List.cons.inj both).2
        · exact both
      rw [ih (fun x member => inside x (List.mem_cons_of_mem y member)) perm.cons_inv
        ysOrdered.of_cons zsOrdered.of_cons rest]

namespace StablySorted

/-- **There is one stable sort** of a list under a total preorder. -/
theorem unique (laws : cmp.TotalPreorderOn (· ∈ xs)) (first : StablySorted cmp xs ys)
    (second : StablySorted cmp xs zs) : ys = zs := by
  refine eq_of_ordered_of_ties laws ?_ (first.perm.trans second.perm.symm) first.ordered second.ordered ?_
  · intro x member
    exact first.perm.mem_iff.1 member
  · intro x member
    have old := first.perm.mem_iff.1 member
    rw [first.ties x old, second.ties x old]

/-- A sort by keys is a sort of the keys. -/
theorem map {cmp : Comparison β} (f : α → β) (h : StablySorted (fun a b => cmp (f a) (f b)) xs ys) :
    StablySorted cmp (xs.map f) (ys.map f) where
  perm := h.perm.map f
  ordered := List.pairwise_map.2 h.ordered
  ties := by
    intro x member
    obtain ⟨x, old, rfl⟩ := List.mem_map.1 member
    have ties := h.ties x old
    unfold tied at ties ⊢
    rw [List.filter_map, List.filter_map]
    exact congrArg (List.map f) ties

/-- A list in order is what comes before an element, what ties with it, and what comes after. -/
theorem eq_append_tied_append {x : α} (laws : cmp.TotalPreorderOn S) (sx : S x) (inside : ∀ y ∈ ys, S y)
    (ordered : ys.Pairwise fun a b => cmp a b ≠ .gt) :
    ys = ys.filter (fun y => cmp x y = .gt) ++ tied cmp x ys ++ ys.filter (fun y => cmp x y = .lt) := by
  induction ys with
  | nil => rfl
  | cons y ys ih =>
    have sy := inside y List.mem_cons_self
    have rest : ∀ z ∈ ys, S z := fun z member => inside z (List.mem_cons_of_mem y member)
    have later : ∀ z ∈ ys, cmp y z ≠ .gt := fun z member => List.rel_of_pairwise_cons ordered member
    have split := ih rest ordered.of_cons
    unfold tied at split ⊢
    cases answer : cmp x y with
    | gt => simp [answer, ← split]
    | eq =>
      have none : ys.filter (fun z => cmp x z = .gt) = [] := by
        rw [List.filter_eq_nil_iff]
        intro z member
        have xz := laws.trans x y z sx sy (rest z member) (by simp [answer]) (later z member)
        simp [xz]
      rw [none, List.nil_append] at split
      simp [answer, none, ← split]
    | lt =>
      -- behind an element that comes after the key there are only such
      have all : ∀ z ∈ ys, cmp x z = .lt :=
        fun z member => laws.lt_of_lt_of_ne_gt sx sy (rest z member) answer (later z member)
      have before : ys.filter (fun z => cmp x z = .gt) = [] :=
        List.filter_eq_nil_iff.2 fun z member => by simp [all z member]
      have ties : ys.filter (fun z => cmp x z = .eq) = [] :=
        List.filter_eq_nil_iff.2 fun z member => by simp [all z member]
      have after : ys.filter (fun z => cmp x z = .lt) = ys :=
        List.filter_eq_self.2 fun z member => by simp [all z member]
      simp [answer, before, ties, after]

/-- **The mirror image of a stable sort** is one of the mirror image, by the opposite comparison. -/
theorem mirror (laws : cmp.TotalPreorderOn (· ∈ xs)) (sorted : StablySorted cmp xs ys) :
    StablySorted (fun a b => (cmp a b).swap) xs.reverse ys.reverse where
  perm := (ys.reverse_perm.trans sorted.perm).trans xs.reverse_perm.symm
  ordered := by
    rw [List.pairwise_reverse]
    refine List.Pairwise.imp_of_mem ?_ sorted.ordered
    intro a b aMember bMember notAfter
    rw [← laws.swap b a (sorted.perm.mem_iff.1 bMember) (sorted.perm.mem_iff.1 aMember)]
    exact notAfter
  ties := by
    intro x member
    rw [tied_swap, tied_swap, tied_reverse, tied_reverse, sorted.ties x (List.mem_reverse.1 member)]

/-- Another arrangement of a list with the same ties has the same stable sorts. -/
theorem of_same_ties (sorted : StablySorted cmp xs ys) (perm : xs.Perm zs)
    (same : ∀ x ∈ zs, tied cmp x xs = tied cmp x zs) : StablySorted cmp zs ys where
  perm := sorted.perm.trans perm
  ordered := sorted.ordered
  ties := by
    intro x member
    rw [sorted.ties x (perm.mem_iff.2 member), same x member]

/-- **A stable sort of a stable sort** is one by both comparisons, that of the later sort first. -/
theorem lexicographic {next : Comparison α} (self : ∀ x ∈ xs, cmp x x = .eq)
    (first : StablySorted next xs ys) (second : StablySorted cmp ys zs) :
    StablySorted (fun a b => (cmp a b).then (next a b)) xs zs := by
  have perm := second.perm.trans first.perm
  refine ⟨perm, ?_, ?_⟩
  · rw [List.pairwise_iff_forall_sublist]
    intro a b inside
    have notAfter : cmp a b ≠ .gt := List.pairwise_iff_forall_sublist.1 second.ordered inside
    have aIn : a ∈ zs := inside.subset List.mem_cons_self
    have tie : cmp a a = .eq := self a (perm.mem_iff.1 aIn)
    cases answer : cmp a b with
    | lt => simp
    | gt => exact absurd answer notAfter
    | eq =>
      -- the later sort left two that tie as they stood, which is as the earlier sort put them
      have both : [a, b].Sublist (tied cmp a zs) := by
        have kept := inside.filter fun y => cmp a y = .eq
        rwa [List.filter_eq_self.2 (by simp [tie, answer])] at kept
      rw [second.ties a (second.perm.mem_iff.1 aIn)] at both
      exact List.pairwise_iff_forall_sublist.1 first.ordered (both.trans List.filter_sublist)
  · intro x member
    rw [tied_lexicographic, second.ties x (first.perm.mem_iff.2 member), tied_comm, first.ties x member,
      tied_comm, tied_lexicographic]

/-- **In a sorted list, ties stand together** as they stood before. -/
theorem exists_block {x : α} (laws : cmp.TotalPreorderOn (· ∈ xs)) (sorted : StablySorted cmp xs ys)
    (member : x ∈ xs) : ∃ before after, ys = before ++ tied cmp x xs ++ after := by
  have split := eq_append_tied_append laws member (fun y there => sorted.perm.mem_iff.1 there) sorted.ordered
  rw [sorted.ties x member] at split
  exact ⟨_, _, split⟩

end StablySorted

section MergeSort

variable [laws : Std.TransCmp cmp]

theorem stablySorted_mergeSort_of_transCmp (xs : List α) :
    StablySorted cmp xs (xs.mergeSort fun a b => (cmp a b).isLE) := by
  have everywhere : cmp.TotalPreorderOn fun _ => True := Comparison.totalPreorderOn_of_transCmp _
  have trans : ∀ a b c, (cmp a b).isLE → (cmp b c).isLE → (cmp a c).isLE := fun a b c => laws.isLE_trans
  have total : ∀ a b, ((cmp a b).isLE || (cmp b a).isLE) = true := by
    intro a b
    rw [laws.eq_swap (a := b)]
    cases cmp a b <;> rfl
  have perm := List.mergeSort_perm xs fun a b => (cmp a b).isLE
  refine ⟨perm, ?_, ?_⟩
  · exact (List.pairwise_mergeSort trans total xs).imp Ordering.isLE_iff_ne_gt.1
  · intro x _
    have ordered : (tied cmp x xs).Pairwise fun a b => (cmp a b).isLE := by
      refine List.Pairwise.imp_of_mem ?_ (List.pairwise_of_forall (R := fun _ _ => True) (by simp))
      intro a b aMember bMember _
      have xa : cmp x a = .eq := by simpa [tied] using (List.mem_filter.1 aMember).2
      have xb : cmp x b = .eq := by simpa [tied] using (List.mem_filter.1 bMember).2
      rw [everywhere.eq_trans trivial trivial trivial (everywhere.eq_symm trivial trivial xa) xb]
      rfl
    -- the ties stand in order already, so merge sort keeps them as they stand
    have inside := List.sublist_mergeSort trans total ordered List.filter_sublist
    have kept := inside.filter fun y => cmp x y = .eq
    simp only [tied, List.filter_filter, Bool.and_self] at kept
    exact (kept.eq_of_length (perm.filter _).length_eq.symm).symm

end MergeSort

/-- **Merge sort** is a stable sort of a list on whose elements the comparison is a total preorder. -/
theorem stablySorted_mergeSort (laws : cmp.TotalPreorderOn (· ∈ xs)) :
    StablySorted cmp xs (xs.mergeSort fun a b => (cmp a b).isLE) := by
  have inside : Std.TransCmp fun a b : { x // x ∈ xs } => cmp a b := Comparison.totalPreorderOn_iff.1 laws
  have sorted : StablySorted cmp (xs.attach.map Subtype.val) _ :=
    (stablySorted_mergeSort_of_transCmp xs.attach).map Subtype.val
  rwa [List.map_mergeSort (s := fun a b => (cmp a b).isLE) fun _ _ _ _ => rfl,
    List.attach_map_subtype_val] at sorted

end Collate.Sort
