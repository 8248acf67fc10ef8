import Collate.Join.Index
import Collate.Proofs.Lookup.Filling

/-!
# The index of a join

The inner side of a join is indexed under its keys, and elements without a key are left out. The
index mirrors the plain list of groups that the same keys give, whatever the equality does. Only
the number of buckets can stop the indexing.
-/

set_option autoImplicit false

namespace Collate.Lookup

variable {K I : Type}

/-- The elements that have a key, each under it. -/
def keyed (key : I → Option K) (inner : List I) : List (K × I) :=
  inner.filterMap fun i => (key i).map fun k => (k, i)

/-- Indexing is pushing the elements that have a key onto an empty lookup. -/
theorem index_eq_pushAll (e : Equality K) {config : Config} (usable : config.validate = .ok ())
    (inner : List I) (key : I → Option K) :
    index e config inner key = (empty e config.initialBuckets).pushAll (keyed key inner) := by
  -- The elements meet what has been built so far, which may be an error already.
  have steps (built : Except Error (Lookup K I)) :
      Id.run (inner.foldlM (indexStep fun i => pure (key i)) built) =
        built.bind fun l => l.pushAll (keyed key inner) := by
    induction inner generalizing built with
    | nil => cases built <;> rfl
    | cons i inner ih =>
      cases built with
      | error fault => exact ih (.error fault)
      | ok l =>
        rw [List.foldlM_cons, indexStep, pure_bind]
        cases present : key i with
        | none =>
          rw [show keyed key (i :: inner) = keyed key inner by simp [keyed, present]]
          exact ih (.ok l)
        | some k =>
          rw [show keyed key (i :: inner) = (k, i) :: keyed key inner by simp [keyed, present]]
          exact ih (l.push k i)
  rw [index, indexM, configured, usable]
  exact steps _

/-- Indexing stops for want of buckets: the elements are more than a machine word allows for. -/
def IndexOverflow (e : Equality K) (config : Config) (inner : List I) (key : I → Option K) : Prop :=
  ∃ n, Excess config inner.length n ∧ index e config inner key = .error (.capacityOverflow n)

/-- **The index is its list of groups**, unless there are too many of them. -/
theorem index_cases (e : Equality K) {config : Config} (usable : config.validate = .ok ())
    (word : config.initialBuckets ≤ Text.wordMax) (inner : List I) (key : I → Option K) :
    (∃ l, index e config inner key = .ok l ∧ l.Mirrors e (Listing.pushAll e [] (keyed key inner))) ∨
      IndexOverflow e config inner key := by
  have filled := empty_pushAll_cases e usable word (keyed key inner)
  rw [← index_eq_pushAll e usable] at filled
  rcases filled with indexed | ⟨n, excess, failed⟩
  · exact Or.inl indexed
  · have count : (keyed key inner).length ≤ inner.length := List.length_filterMap_le _ _
    exact Or.inr ⟨n, ⟨excess.outnumbers, Nat.le_trans excess.founded count, excess.uncounted⟩, failed⟩

end Collate.Lookup
