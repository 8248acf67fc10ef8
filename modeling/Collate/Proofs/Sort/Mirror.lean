import Collate.Proofs.Pull
import Collate.Proofs.Sort.Ordered
import Collate.Reverse

/-!
# Directions turned around

Sorting downwards is not sorting upwards and reading the result from its end: this would turn the
elements that tie around as well. It is so if the source is read from its end, too. The result of
a chain with all directions turned around is the mirror image of what the chain makes of the
mirror image of the source.
-/

set_option autoImplicit false

namespace Collate.Reverse

variable {α : Type}

@[simp] theorem remaining_ofSource (source : Source α) : (ofSource source).remaining = source.rest.reverse := by
  simp [ofSource, remaining]

/-- A reversed sequence gives what remains, and then nothing. -/
theorem yields_remaining (r : Reverse α) : Pull.Yields pull r r.remaining := by
  refine Pull.yields_view remaining ?_ ?_ r
  · intro r seen
    rw [pull, seen]
  · intro r x rest seen
    rw [pull, seen]
    exact ⟨rfl, rfl⟩

theorem toList_ofSource (source : Source α) : (ofSource source).toList = source.rest.reverse := by
  rw [toList, (yields_remaining _).collect_eq (Nat.le_refl _), remaining_ofSource]

end Collate.Reverse

namespace Collate.Sort

theorem rankChain_flip {α : Type} (levels : List (Level α)) (x y : α) :
    rankChain (levels.map Level.flip) x y = (rankChain levels x y).swap := by
  induction levels with
  | nil => rfl
  | cons l rest ih => rw [List.map_cons, rankChain, ih, Level.rank_flip, rankChain, Ordering.swap_then]

namespace Ordered

variable {α : Type} {o : Ordered α}

/-- The sequence with the direction of every level turned around. -/
def flipped (o : Ordered α) : Ordered α := { o with levels := o.levels.map Level.flip }

/-- Directions are nothing that the laws ask about. -/
theorem Lawful.flipped (laws : o.Lawful) : o.flipped.Lawful := by
  intro l member
  obtain ⟨l, inside, rfl⟩ := List.mem_map.1 member
  exact laws l inside

theorem rankChain_flipped (o : Ordered α) : rankChain o.flipped.levels = fun x y => (rankChain o.levels x y).swap :=
  funext₂ (rankChain_flip o.levels)

/-- The stable sort by the flipped chain is the mirror image of that of the mirror image. -/
theorem Lawful.toList_flipped (laws : o.Lawful) {mirror : Ordered α} (levels : mirror.levels = o.levels)
    (turned : mirror.source.rest = o.source.rest.reverse) : o.flipped.toList = mirror.toList.reverse := by
  have mirrorLaws : mirror.Lawful := by
    intro l member
    simpa [turned] using laws l (levels ▸ member)
  have image := mirrorLaws.stablySorted.mirror mirrorLaws.chain
  rw [levels, turned, List.reverse_reverse, ← rankChain_flipped] at image
  exact laws.flipped.stablySorted.unique laws.flipped.chain image

/-- The plain reverse of the sort is the sort by the flipped chain only where reversing the source
leaves its ties as they stand. -/
theorem Lawful.reverse_toList_eq_iff (laws : o.Lawful) : o.toList.reverse = o.flipped.toList ↔
    ∀ x ∈ o.source.rest,
      (tied (rankChain o.levels) x o.source.rest).reverse = tied (rankChain o.levels) x o.source.rest := by
  have sorted := laws.stablySorted
  have flipped := laws.flipped.stablySorted
  rw [rankChain_flipped] at flipped
  constructor
  · intro plain x member
    calc (tied (rankChain o.levels) x o.source.rest).reverse
        = tied (rankChain o.levels) x o.toList.reverse := by rw [tied_reverse, sorted.ties x member]
      _ = tied (rankChain o.levels) x o.flipped.toList := by rw [plain]
      _ = tied (rankChain o.levels) x o.source.rest := by rw [← tied_swap, flipped.ties x member, tied_swap]; rfl
  · intro symmetric
    -- read from the end, the source has the same ties, so its stable sort is the source's own
    have image := (sorted.mirror laws.chain).of_same_ties o.source.rest.reverse_perm fun x member => by
      rw [tied_swap, tied_swap, tied_reverse, symmetric x member]
    rw [← rankChain_flipped] at image
    exact image.unique laws.flipped.chain laws.flipped.stablySorted

/-- **Turning all directions around mirrors the sort.** If the levels are total preorders on the keys
that occur, the flipped chain sorts a source as the chain itself sorts the reversed source when
the result is reversed again: it is the stable sort by the opposite order. The plain reverse of
what the chain gives is something else, unless the ties of the source read the same from its end. -/
theorem flipped_sorts_mirrored (laws : o.Lawful) :
    (∀ mirror : Ordered α, mirror.levels = o.levels → mirror.source.rest = (Reverse.ofSource o.source).toList →
      ∀ given : Source α, given.rest = mirror.toList →
        o.flipped.toList = (Reverse.ofSource given).toList ∧
          Pull.Yields Reverse.pull (.ofSource given) o.flipped.toList) ∧
    (∀ ys, StablySorted (fun x y => (rankChain o.levels x y).swap) o.source.rest ys ↔ ys = o.flipped.toList) ∧
    (∀ given : Source α, given.rest = o.toList →
      (o.flipped.toList = (Reverse.ofSource given).toList ↔
        ∀ x ∈ o.source.rest,
          (tied (rankChain o.levels) x o.source.rest).reverse = tied (rankChain o.levels) x o.source.rest)) := by
  have chain := laws.flipped.chain
  have sorted := laws.flipped.stablySorted
  rw [rankChain_flipped] at chain sorted
  refine ⟨?_, ?_, ?_⟩
  · intro mirror levels turned given handed
    rw [Reverse.toList_ofSource] at turned ⊢
    have remaining := Reverse.yields_remaining (.ofSource given)
    rw [Reverse.remaining_ofSource, handed, ← laws.toList_flipped levels turned] at remaining
    rw [handed]
    exact ⟨laws.toList_flipped levels turned, remaining⟩
  · intro ys
    constructor
    · intro other
      exact other.unique chain sorted
    · rintro rfl
      exact sorted
  · intro given handed
    rw [Reverse.toList_ofSource, handed, ← laws.reverse_toList_eq_iff, eq_comm]

/-- Upwards by tens, numbers of equal tens stay as they stood, which reading the sort downwards from
its end does not give. -/
theorem flipped_sorts_mirrored_tensDown :
    let mirror : Ordered Nat := { tensDown with source := .ofList [20, 11, 25, 12] false }
    tensDown.Lawful ∧ mirror.source.rest = (Reverse.ofSource tensDown.source).toList ∧
      mirror.toList = [20, 25, 11, 12] ∧ tensDown.flipped.toList = [12, 11, 25, 20] ∧
      tensDown.flipped.toList ≠ (Reverse.ofSource (.ofList tensDown.toList true)).toList := by
  intro mirror
  have laws : tensDown.Lawful := by
    refine lawful_of_transCmp fun l only => ?_
    rw [List.mem_singleton.1 only]
    exact inferInstanceAs (Std.TransCmp (compare : Nat → Nat → Ordering))
  have turned : mirror.source.rest = (Reverse.ofSource tensDown.source).toList := by decide
  have sorted : mirror.toList = [20, 25, 11, 12] := by decide +kernel
  obtain ⟨mirrored, -, plain⟩ := flipped_sorts_mirrored laws
  refine ⟨laws, turned, sorted, (mirrored mirror rfl turned (.ofList [20, 25, 11, 12] true) sorted.symm).1, ?_⟩
  rw [Ne, plain (.ofList tensDown.toList true) rfl]
  decide

end Ordered

end Collate.Sort
