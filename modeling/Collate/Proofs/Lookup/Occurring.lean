import Collate.Proofs.Comparer.Tolerance
import Collate.Proofs.Lookup.Filling

/-!
# Groups and the keys that occur

A list of groups is asked about the keys that were pushed and those that are looked up, and about
no other key. So two equalities that agree on these keys find the same groups and gather the same
elements.
-/

set_option autoImplicit false

namespace Collate.Listing

variable {K V : Type} {e e' : Equality K} {S : K → Prop} {groups : List (Group K V)} {query : K}

theorem place?_congr (agree : e.AgreeOn e' S) (inside : ∀ g ∈ groups, S g.key) (asked : S query) :
    place? e' groups query = place? e groups query := by
  have answers : ∀ p ∈ groups.zipIdx.reverse, Lookup.answers e' (e'.storedHash query) query p.1 =
      Lookup.answers e (e.storedHash query) query p.1 := by
    intro p member
    have there := List.mem_of_getElem? (List.mem_zipIdx_iff_getElem?.1 (List.mem_reverse.1 member))
    rw [Lookup.answers, Lookup.answers, agree.storedHash_eq asked, agree.equals _ _ (inside _ there) asked]
  rw [place?_eq, place?_eq, ← List.head?_filter, ← List.head?_filter, List.filter_congr answers]

theorem get_congr (agree : e.AgreeOn e' S) (inside : ∀ g ∈ groups, S g.key) (asked : S query) :
    get e' groups query = get e groups query := by
  rw [get, get, group?, group?, place?_congr agree inside asked]

/-- The key of a group is one that was pushed. -/
theorem forall_key_pushAll {pairs : List (K × V)} (inside : ∀ p ∈ pairs, S p.1) :
    ∀ g ∈ pushAll e [] pairs, S g.key := by
  intro g member
  obtain ⟨-, p, pushed, key⟩ := pushAll_filed e pairs g member
  exact key ▸ inside p pushed

/-- Equalities that agree on the keys that are pushed gather the same groups. -/
theorem pushAll_congr (agree : e.AgreeOn e' S) {pairs : List (K × V)} (inside : ∀ p ∈ pairs, S p.1) :
    pushAll e' [] pairs = pushAll e [] pairs := by
  induction pairs using List.reverseRecOn with
  | nil => rfl
  | append_singleton pairs p ih =>
    have before : ∀ q ∈ pairs, S q.1 := fun q member => inside q (List.mem_append_left _ member)
    have last : S p.1 := inside p (by simp)
    have keys : ∀ g ∈ pushAll e [] pairs, S g.key := forall_key_pushAll before
    have same := ih before
    unfold pushAll at same keys ⊢
    rw [List.foldl_append, List.foldl_append, same]
    change push e' _ p.1 p.2 = push e _ p.1 p.2
    rw [push_eq, push_eq, place?_congr agree keys last, agree.storedHash_eq last]

end Collate.Listing
