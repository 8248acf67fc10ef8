import Collate.Proofs.Lookup.Reachable
import Mathlib.Algebra.Group.Nat.Defs
import Mathlib.Order.Bounds.Basic

/-!
# When a table grows

Each growth doubles what is three more than the number of buckets, and a table grows when its
groups come to outnumber its buckets. So the number of groups alone says how often a table has
grown: as often as it takes to have a bucket for every group, and no more often than that.
-/

set_option autoImplicit false

namespace Collate.Lookup

variable {K V : Type} {e : Equality K} {buckets : Nat} {l : Lookup K V}

/-- The buckets of a table that started with some of them and has grown so many times. -/
def grownBuckets (start growths : Nat) : Nat := 2 ^ growths * (start + 3) - 3

theorem grownBuckets_zero (start : Nat) : grownBuckets start 0 = start := by
  simp [grownBuckets]

theorem grownBuckets_succ (start growths : Nat) :
    grownBuckets start (growths + 1) = 2 * grownBuckets start growths + 3 := by
  have three : 3 ≤ 2 ^ growths * (start + 3) :=
    calc 3 ≤ start + 3 := Nat.le_add_left 3 start
      _ ≤ 2 ^ growths * (start + 3) := Nat.le_mul_of_pos_left _ (Nat.two_pow_pos growths)
  rw [grownBuckets, grownBuckets, Nat.pow_succ', Nat.mul_assoc]
  omega

theorem grownBuckets_mono (start : Nat) : Monotone (grownBuckets start) :=
  monotone_nat_of_le_succ fun growths => by
    rw [grownBuckets_succ]
    omega

/-- A table has grown as often as its groups need. -/
structure Grown (start : Nat) (l : Lookup K V) : Prop where
  buckets : l.bucketCount = grownBuckets start l.rehashes
  least : IsLeast { growths | l.size ≤ grownBuckets start growths } l.rehashes

/-- A table that has grown as its groups need has a bucket for each of them. -/
theorem Grown.fits (grown : l.Grown buckets) : l.size ≤ l.bucketCount := by
  rw [grown.buckets]
  exact grown.least.1

theorem grown_empty (e : Equality K) (start : Nat) : (empty e start : Lookup K V).Grown start where
  buckets := by rw [bucketCount_empty, show (empty e start : Lookup K V).rehashes = 0 from rfl, grownBuckets_zero]
  least := ⟨Nat.zero_le _, fun _ _ => Nat.zero_le _⟩

/-- An insertion grows the table when the groups need it. -/
theorem Grown.insert (grown : l.Grown buckets) (key : K) (value : V) : (l.insert key value).Grown buckets := by
  obtain ⟨count, enough, least⟩ := grown
  change l.size ≤ grownBuckets buckets l.rehashes at enough
  rcases l.insert_cases key value with
    ⟨-, size, chains, rehashes⟩ | ⟨-, size, spare, same, rehashes⟩ | ⟨-, size, full, more, rehashes⟩
  · refine ⟨?_, ?_⟩
    · rw [rehashes, ← count]
      exact congrArg Chains.bucketCount chains
    · rw [size, rehashes]
      exact ⟨enough, least⟩
  · refine ⟨by rw [rehashes, same, count], ?_⟩
    rw [size, rehashes]
    refine ⟨Nat.lt_of_lt_of_eq spare count, ?_⟩
    intro growths fits
    exact least (Nat.le_of_succ_le fits)
  · -- every bucket has its group, so with any fewer growths there would be too few for one more
    have next := grownBuckets_succ buckets l.rehashes
    refine ⟨by rw [rehashes, more, next]; omega, ?_⟩
    rw [size, rehashes]
    refine ⟨show l.size + 1 ≤ grownBuckets buckets (l.rehashes + 1) by omega, ?_⟩
    intro growths fits
    by_contra fewer
    have fits : l.size + 1 ≤ grownBuckets buckets growths := fits
    have below := grownBuckets_mono buckets (show growths ≤ l.rehashes by omega)
    omega

theorem Reachable.grown (reached : Reachable e buckets l) : l.Grown buckets := by
  induction reached with
  | empty => exact grown_empty e buckets
  | push _ pushed ih =>
    obtain ⟨-, rfl⟩ := push_eq_ok_iff.1 pushed
    exact ih.insert _ _

theorem Reachable.bucketCount_le (reached : Reachable e buckets l) : l.bucketCount ≤ Text.wordMax := by
  cases reached with
  | empty _ word => rwa [bucketCount_empty]
  | push _ pushed =>
    obtain ⟨fits, rfl⟩ := push_eq_ok_iff.1 pushed
    exact fits

/-- A push is made, unless it has to grow the table past what a machine word counts. -/
theorem Reachable.push_cases (reached : Reachable e buckets l) (key : K) (value : V) :
    l.push key value = .ok (l.insert key value) ∨
      Text.wordMax < 2 * (l.size + 1) + 1 ∧ l.push key value = .error (.capacityOverflow (l.size + 1)) := by
  have word := reached.bucketCount_le
  by_cases fits : (l.insert key value).bucketCount ≤ Text.wordMax
  · exact Or.inl (push_eq_ok_iff.2 ⟨fits, rfl⟩)
  · right
    rcases l.insert_cases key value with
      ⟨-, -, chains, -⟩ | ⟨-, -, -, same, -⟩ | ⟨-, size, -, more, -⟩
    · exact absurd ((congrArg Chains.bucketCount chains).trans_le word) fits
    · exact absurd (same.trans_le word) fits
    · refine ⟨by omega, ?_⟩
      unfold Lookup.push
      dsimp only
      rw [if_neg fits, size]

theorem Grown.eq_of_size {K' V' : Type} {l' : Lookup K' V'} (grown : l.Grown buckets) (grown' : l'.Grown buckets)
    (sizes : l'.size = l.size) : l'.rehashes = l.rehashes ∧ l'.bucketCount = l.bucketCount := by
  have least := grown'.least
  rw [sizes] at least
  have rehashes := least.unique grown.least
  exact ⟨rehashes, by rw [grown'.buckets, rehashes, grown.buckets]⟩

/-- **A table grows with its groups alone.** After any pushes onto an empty lookup, the times that
the table has grown are the fewest that give every group a bucket, and tell how many buckets there
are: a lookup with as many groups has the same numbers, whatever its keys, its equality and its
pushes. A push is made unless it needs more buckets than a machine word counts. It leaves the table
as it is when it finds its group, and never lets it grow more than once. -/
theorem reachable_scheduled (reached : Reachable e buckets l) :
    l.bucketCount = 2 ^ l.rehashes * (buckets + 3) - 3 ∧
      IsLeast { growths | l.size ≤ 2 ^ growths * (buckets + 3) - 3 } l.rehashes ∧
      (∀ {K' V' : Type} {e' : Equality K'} {l' : Lookup K' V'}, Reachable e' buckets l' → l'.size = l.size →
        l'.rehashes = l.rehashes ∧ l'.bucketCount = l.bucketCount) ∧
      ∀ key value,
        (l.push key value = .ok (l.insert key value) ∨
          Text.wordMax < 2 * (l.size + 1) + 1 ∧ l.push key value = .error (.capacityOverflow (l.size + 1))) ∧
        ∀ l', l.push key value = .ok l' →
          (l.indexOf? key ≠ none → l'.size = l.size ∧ l'.chains = l.chains ∧ l'.rehashes = l.rehashes) ∧
          (l'.bucketCount = l.bucketCount ∧ l'.rehashes = l.rehashes ∨
            l'.bucketCount = 2 * l.bucketCount + 3 ∧ l'.rehashes = l.rehashes + 1) := by
  have grown := reached.grown
  have fits := grown.fits
  refine ⟨grown.buckets, grown.least, fun other sizes => grown.eq_of_size other.grown sizes, ?_⟩
  intro key value
  refine ⟨reached.push_cases key value, ?_⟩
  intro l' pushed
  obtain ⟨-, rfl⟩ := push_eq_ok_iff.1 pushed
  rcases l.insert_cases key value with
    ⟨-, size, chains, rehashes⟩ | ⟨new, -, -, same, rehashes⟩ | ⟨new, -, full, more, rehashes⟩
  · exact ⟨fun _ => ⟨size, chains, rehashes⟩, Or.inl ⟨congrArg Chains.bucketCount chains, rehashes⟩⟩
  · exact ⟨fun found => absurd new found, Or.inl ⟨same, rehashes⟩⟩
  · exact ⟨fun found => absurd new found, Or.inr ⟨by omega, rehashes⟩⟩

/-- The second group needs a growth, the third element finds its group. -/
theorem reachable_scheduled_neighbours :
    ∃ l : Lookup Nat Nat, Reachable neighbours 1 l ∧ l.size = 2 ∧ l.rehashes = 1 ∧ l.bucketCount = 2 ^ 1 * (1 + 3) - 3 ∧
      IsLeast { growths | 2 ≤ 2 ^ growths * (1 + 3) - 3 } 1 ∧
      ∀ l', l.push 3 30 = .ok l' → l'.chains = l.chains := by
  have pushed : (empty neighbours 1).pushAll [(2, 20), (4, 40)] =
      .ok ((empty neighbours 1).insertAll [(2, 20), (4, 40)]) := by rfl
  have reached := (Reachable.empty (by decide) (by decide)).pushAll pushed
  obtain ⟨count, least, -, pushes⟩ := reachable_scheduled reached
  refine ⟨_, reached, rfl, rfl, count, least, ?_⟩
  intro l' again
  exact (((pushes 3 30).2 l' again).1 (by decide)).2.1

end Collate.Lookup
