import Collate.Lookup.Build
import Collate.Proofs.Lookup.Chains

/-!
# Growth of a lookup

An insertion grows the table exactly when the groups have come to outnumber the buckets, and
then to twice as many buckets as groups, and one. Growth is all that can make a push fail: a
sequence of pushes ends well, or it ends with a group whose growth no machine word can count.
-/

set_option autoImplicit false

namespace Collate.Lookup

variable {K V : Type}

theorem size_create (l : Lookup K V) (key : K) (hash : Nat) (value : V) :
    (l.create key hash value).size = l.size + 1 := by
  unfold create rehash size
  dsimp only
  split <;> simp

theorem size_append (l : Lookup K V) (place : Nat) (value : V) : (l.append place value).size = l.size := by
  simp [append, size]

@[simp] theorem bucketCount_empty (e : Equality K) (buckets : Nat) :
    (empty e buckets : Lookup K V).bucketCount = buckets := by
  simp [empty, bucketCount, Chains.empty, Chains.bucketCount]

/-- A new group leaves the table as large as it was, or lets it grow if it has no bucket for the group. -/
theorem create_cases (l : Lookup K V) (key : K) (hash : Nat) (value : V) :
    (l.size < l.bucketCount ∧ (l.create key hash value).bucketCount = l.bucketCount ∧
        (l.create key hash value).rehashes = l.rehashes) ∨
      (l.bucketCount ≤ l.size ∧ (l.create key hash value).bucketCount = 2 * (l.size + 1) + 1 ∧
        (l.create key hash value).rehashes = l.rehashes + 1) := by
  let filed : Lookup K V :=
    { l with groups := l.groups.push ⟨key, hash, #[value]⟩, chains := l.chains.file hash }
  have buckets : filed.bucketCount = l.bucketCount := Chains.bucketCount_file _ _
  have groups : filed.size = l.size + 1 := Array.size_push _
  have grown : filed.rehash.bucketCount = 2 * filed.size + 1 := Chains.bucketCount_ofHashes _ _
  have created : l.create key hash value = if filed.bucketCount < filed.size then filed.rehash else filed := rfl
  rw [created]
  split
  · exact Or.inr ⟨by omega, by rw [grown, groups], rfl⟩
  · exact Or.inl ⟨by omega, buckets, rfl⟩

/-- What an insertion can do: join a group, found one that has a bucket to spare, or found one and
grow the table. -/
theorem insert_cases (l : Lookup K V) (key : K) (value : V) :
    (l.indexOf? key ≠ none ∧ (l.insert key value).size = l.size ∧
        (l.insert key value).chains = l.chains ∧ (l.insert key value).rehashes = l.rehashes) ∨
      (l.indexOf? key = none ∧ (l.insert key value).size = l.size + 1 ∧ l.size < l.bucketCount ∧
        (l.insert key value).bucketCount = l.bucketCount ∧ (l.insert key value).rehashes = l.rehashes) ∨
      (l.indexOf? key = none ∧ (l.insert key value).size = l.size + 1 ∧ l.bucketCount ≤ l.size ∧
        (l.insert key value).bucketCount = 2 * (l.size + 1) + 1 ∧
        (l.insert key value).rehashes = l.rehashes + 1) := by
  unfold insert indexOf?
  dsimp only
  cases l.find? key (l.equality.storedHash key) with
  | some place => exact Or.inl ⟨nofun, size_append l place value, rfl, rfl⟩
  | none =>
    have size := size_create l key (l.equality.storedHash key) value
    rcases l.create_cases key (l.equality.storedHash key) value with spare | full
    · exact Or.inr (Or.inl ⟨rfl, size, spare⟩)
    · exact Or.inr (Or.inr ⟨rfl, size, full⟩)

theorem size_insert (l : Lookup K V) (key : K) (value : V) :
    (l.insert key value).size = l.size ∨ (l.insert key value).size = l.size + 1 := by
  rcases l.insert_cases key value with ⟨-, same, -⟩ | ⟨-, more, -⟩ | ⟨-, more, -⟩
  · exact Or.inl same
  · exact Or.inr more
  · exact Or.inr more

theorem size_le_insertAll (l : Lookup K V) (pairs : List (K × V)) :
    l.size ≤ (l.insertAll pairs).size := by
  induction pairs generalizing l with
  | nil => exact Nat.le_refl _
  | cons p pairs ih =>
    have one := l.size_insert p.1 p.2
    have others : (l.insert p.1 p.2).size ≤ (l.insertAll (p :: pairs)).size := ih (l.insert p.1 p.2)
    omega

/-- An insertion keeps the bucket count, or grows it past the groups that came to outnumber it. -/
theorem bucketCount_insert (l : Lookup K V) (key : K) (value : V) :
    (l.insert key value).bucketCount = l.bucketCount ∨
      l.bucketCount < (l.insert key value).size ∧
        (l.insert key value).bucketCount = 2 * (l.insert key value).size + 1 := by
  rcases l.insert_cases key value with
    ⟨-, -, chains, -⟩ | ⟨-, -, -, same, -⟩ | ⟨-, size, full, more, -⟩
  · exact Or.inl (congrArg Chains.bucketCount chains)
  · exact Or.inl same
  · exact Or.inr ⟨by omega, by rw [more, size]⟩

/-- A push is an insertion unless this needs more buckets than a machine word counts. -/
theorem push_eq_ok_iff {l l' : Lookup K V} {key : K} {value : V} :
    l.push key value = .ok l' ↔ (l.insert key value).bucketCount ≤ Text.wordMax ∧ l.insert key value = l' := by
  unfold push
  dsimp only
  split
  · next fits => simp [fits]
  · next excess => simp [excess]

/-! ## Buckets by the number of groups -/

/-- The buckets of a lookup that started with some of them and has come to have so many groups. -/
def bucketsFor (start : Nat) : Nat → Nat
  | 0 => start
  | groups + 1 =>
      if bucketsFor start groups < groups + 1 then 2 * (groups + 1) + 1 else bucketsFor start groups

/-- The groups never outnumber the buckets. -/
theorem le_bucketsFor (start groups : Nat) : groups ≤ bucketsFor start groups := by
  cases groups with
  | zero => exact Nat.zero_le _
  | succ groups =>
    rw [bucketsFor]
    split <;> omega

/-- The first number of groups, up to a count, that needs more buckets than a machine word counts. -/
def overflow? (start : Nat) : Nat → Option Nat
  | 0 => none
  | groups + 1 =>
      (overflow? start groups).or (if Text.wordMax < bucketsFor start (groups + 1) then some (groups + 1) else none)

theorem bucketsFor_le_of_overflow? {start groups : Nat} (word : start ≤ Text.wordMax)
    (fits : overflow? start groups = none) : bucketsFor start groups ≤ Text.wordMax := by
  cases groups with
  | zero => exact word
  | succ groups =>
    rw [overflow?, Option.or_eq_none_iff] at fits
    by_contra more
    rw [if_pos (by omega)] at fits
    cases fits.2

theorem bucketCount_insert_eq {start : Nat} {l : Lookup K V} (counted : l.bucketCount = bucketsFor start l.size)
    (key : K) (value : V) : (l.insert key value).bucketCount = bucketsFor start (l.insert key value).size := by
  rcases l.insert_cases key value with
    ⟨-, size, chains, -⟩ | ⟨-, size, spare, same, -⟩ | ⟨-, size, full, more, -⟩
  · rw [size, ← counted]
    exact congrArg Chains.bucketCount chains
  · rw [size, same, counted, bucketsFor, if_neg (by omega)]
  · rw [size, more, bucketsFor, if_pos (by omega)]

/-- The buckets of a lookup are those for the number of its groups, whatever was inserted. -/
theorem bucketCount_insertAll (e : Equality K) (start : Nat) (pairs : List (K × V)) :
    ((empty e start).insertAll pairs).bucketCount = bucketsFor start ((empty e start).insertAll pairs).size := by
  induction pairs using List.reverseRecOn with
  | nil => exact bucketCount_empty e start
  | append_singleton pairs p ih =>
    rw [insertAll_append]
    exact bucketCount_insert_eq ih p.1 p.2

/-! ## Overflow -/

/-- A lookup, unless on the way to its groups their number once asked for too many buckets. -/
def held (start : Nat) (l : Lookup K V) : Except Error (Lookup K V) :=
  match overflow? start l.size with
  | none => .ok l
  | some n => .error (.capacityOverflow n)

theorem held_of_overflow? {start n : Nat} {l : Lookup K V} (excess : overflow? start l.size = some n) :
    held start l = .error (.capacityOverflow n) := by
  rw [held, excess]

theorem held_of_fits {start : Nat} {l : Lookup K V} (fits : overflow? start l.size = none) : held start l = .ok l := by
  rw [held, fits]

/-- Lookups of one size overflowed both or none of them, and at the same number of groups. -/
theorem held_alike (start : Nat) {l l' : Lookup K V} (sizes : l.size = l'.size) :
    held start l = .ok l ∧ held start l' = .ok l' ∨
      ∃ n, held start l = .error (.capacityOverflow n) ∧ held start l' = .error (.capacityOverflow n) := by
  cases excess : overflow? start l.size with
  | none => exact Or.inl ⟨held_of_fits excess, held_of_fits (sizes ▸ excess)⟩
  | some n => exact Or.inr ⟨n, held_of_overflow? excess, held_of_overflow? (sizes ▸ excess)⟩

theorem held_bind_push {start : Nat} (word : start ≤ Text.wordMax) {l : Lookup K V}
    (counted : l.bucketCount = bucketsFor start l.size) (key : K) (value : V) :
    ((held start l).bind fun l => l.push key value) = held start (l.insert key value) := by
  have counted' := bucketCount_insert_eq counted key value
  have grown := l.size_insert key value
  cases before : overflow? start l.size with
  | some n =>
    -- what overflowed before stays the first that did
    have still : overflow? start (l.insert key value).size = some n := by
      rcases grown with same | more
      · rw [same, before]
      · rw [more, overflow?, before, Option.some_or]
    rw [held_of_overflow? before, held_of_overflow? still]
    rfl
  | none =>
    rw [held_of_fits before]
    change l.push key value = _
    rw [push, counted']
    cases after : overflow? start (l.insert key value).size with
    | none => rw [held_of_fits after, if_pos (bucketsFor_le_of_overflow? word after)]
    | some n =>
      rcases grown with same | more
      · rw [same, before] at after
        cases after
      · have excess := after
        rw [more, overflow?, before, Option.none_or, Option.ite_none_right_eq_some] at excess
        obtain ⟨uncounted, last⟩ := excess
        obtain rfl := Option.some.inj last
        rw [held_of_overflow? after, more, if_neg (by omega)]

/-- **Pushes fail by the number of groups.** Whether pushes onto an empty lookup are all made, and
how they fail if not, depends on how many groups they found, and on nothing else about them. -/
theorem empty_pushAll_eq (e : Equality K) {start : Nat} (word : start ≤ Text.wordMax) (pairs : List (K × V)) :
    (empty e start).pushAll pairs = held start ((empty e start).insertAll pairs) := by
  induction pairs using List.reverseRecOn with
  | nil => rfl
  | append_singleton pairs p ih =>
    have step := held_bind_push word (bucketCount_insertAll e start pairs) p.1 p.2
    rw [← ih] at step
    rw [insertAll_append, pushAll, List.foldlM_append]
    exact (congrArg (Except.bind _) (funext fun l => List.foldlM_cons.trans (bind_pure _))).trans step

/-- **Pushes fail by overflow only.** All are made, or one of them has brought the groups to a
number beyond the buckets for which twice as many buckets, and one, are more than a word counts. -/
theorem pushAll_cases (l : Lookup K V) (pairs : List (K × V)) (word : l.bucketCount ≤ Text.wordMax) :
    l.pushAll pairs = .ok (l.insertAll pairs) ∨
      ∃ n, l.bucketCount < n ∧ n ≤ (l.insertAll pairs).size ∧ Text.wordMax < 2 * n + 1 ∧
        l.pushAll pairs = .error (.capacityOverflow n) := by
  induction pairs generalizing l with
  | nil => exact Or.inl rfl
  | cons p pairs ih =>
    have growth := l.bucketCount_insert p.1 p.2
    by_cases fits : (l.insert p.1 p.2).bucketCount ≤ Text.wordMax
    · have pushed : l.pushAll (p :: pairs) = (l.insert p.1 p.2).pushAll pairs := by
        simp [pushAll, push, fits, bind, Except.bind]
      rw [pushed]
      rcases ih (l.insert p.1 p.2) fits with done | ⟨n, more, bound, excess, failed⟩
      · exact Or.inl done
      · exact Or.inr ⟨n, by omega, bound, excess, failed⟩
    · have failed : l.pushAll (p :: pairs) = .error (.capacityOverflow (l.insert p.1 p.2).size) := by
        simp [pushAll, push, fits, bind, Except.bind]
      exact Or.inr ⟨(l.insert p.1 p.2).size, by omega, size_le_insertAll _ pairs, by omega, failed⟩

end Collate.Lookup
