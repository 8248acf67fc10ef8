import Collate.Sort.Partition

/-!
# Rearranging a zone

The sort only ever rearranges the entries of a zone. What holds of all entries of the zone
holds of them afterwards, and so does what holds of an entry outside of it.
-/

set_option autoImplicit false

namespace Collate.Sort

/-- One arrangement is another with the entries of a zone rearranged. -/
structure Rearranged (low high : Nat) (before after : Array Nat) : Prop where
  perm : after.Perm before
  outside : ∀ k, k < low ∨ high ≤ k → after[k]? = before[k]?

/-- What is said of an entry holds of all entries in a zone. -/
def Throughout (map : Array Nat) (low high : Nat) (P : Nat → Prop) : Prop :=
  ∀ k entry, low ≤ k → k < high → map[k]? = some entry → P entry

namespace Rearranged

variable {low high : Nat} {map mid after : Array Nat}

theorem refl (low high : Nat) (map : Array Nat) : Rearranged low high map map :=
  ⟨Array.Perm.refl map, fun _ _ => rfl⟩

theorem trans (first : Rearranged low high map mid) (second : Rearranged low high mid after) :
    Rearranged low high map after :=
  ⟨second.perm.trans first.perm, fun k out => (second.outside k out).trans (first.outside k out)⟩

theorem widen {inner outer : Nat} (h : Rearranged inner outer map after) (lower : low ≤ inner)
    (upper : outer ≤ high) : Rearranged low high map after :=
  ⟨h.perm, fun k out => h.outside k (by omega)⟩

theorem size_eq (h : Rearranged low high map after) : after.size = map.size := h.perm.size_eq

/-- The zone holds the same entries as before. -/
theorem zone (h : Rearranged low high map after) :
    (after.extract low high).Perm (map.extract low high) :=
  h.perm.extract (fun k below => h.outside k (Or.inl below)) fun k above => h.outside k (Or.inr above)

/-- What holds throughout the zone goes on to hold. -/
theorem throughout (h : Rearranged low high map after) {P : Nat → Prop}
    (all : Throughout map low high P) : Throughout after low high P := by
  intro k entry lower upper found
  have bound : k < after.size := (Array.getElem?_eq_some_iff.1 found).1
  have member : entry ∈ after.extract low high := by
    refine Array.mem_iff_getElem.2 ⟨k - low, by simp; omega, ?_⟩
    rw [Array.getElem_extract]
    simpa [show low + (k - low) = k by omega, bound] using found
  obtain ⟨i, inside, read⟩ := Array.mem_iff_getElem.1 (h.zone.mem_iff.1 member)
  rw [Array.size_extract] at inside
  rw [Array.getElem_extract] at read
  refine all (low + i) entry (by omega) (by omega) ?_
  rw [Array.getElem?_eq_getElem (by omega), read]

/-- What holds throughout a zone apart from the rearranged one goes on to hold. -/
theorem throughout_apart {inner outer : Nat} (h : Rearranged low high map after) {P : Nat → Prop}
    (apart : outer ≤ low ∨ high ≤ inner) (all : Throughout map inner outer P) :
    Throughout after inner outer P := by
  intro k entry lower upper found
  rw [h.outside k (by omega)] at found
  exact all k entry lower upper found

/-- Two entries of the zone that trade places rearrange it. -/
theorem swap {i j : Nat} (map : Array Nat) (iLower : low ≤ i) (iUpper : i < high) (jLower : low ≤ j)
    (jUpper : j < high) : Rearranged low high map (map.swapIfInBounds i j) where
  perm := by
    rw [Array.swapIfInBounds_def]
    split
    · split
      · exact Array.swap_perm _ _
      · exact Array.Perm.refl map
    · exact Array.Perm.refl map
  outside k out := by
    by_cases bound : k < map.size
    · rw [Array.getElem?_eq_getElem (by simpa using bound), Array.getElem?_eq_getElem bound,
        Array.getElem_swapIfInBounds_of_ne_of_ne (by omega) (by omega)]
    · rw [Array.getElem?_eq_none (by simpa using bound), Array.getElem?_eq_none (by omega)]

end Rearranged

end Collate.Sort
