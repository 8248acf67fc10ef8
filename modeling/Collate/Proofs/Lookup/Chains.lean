import Collate.Lookup.Chains
import Mathlib.Data.List.Induction

/-!
# What the chains of a table hold

Following a bucket's links meets exactly the numbers whose hash falls into the bucket, newest
first, and then the chain ends (`Chains.Files`). Filing one more number keeps this. A table that
is made anew from the same hashes has the property again, whatever the number of its buckets.
-/

set_option autoImplicit false

namespace Collate.Chains

/-- From a link on, exactly these numbers are met, and then the chain ends. -/
def Linked (next : Array (Option Nat)) : Option Nat → List Nat → Prop
  | link, [] => link = none
  | link, id :: ids => link = some id ∧ id < next.size ∧ Linked next (next[id]?).join ids

/-- The numbers whose hash falls into a bucket, newest first. -/
def members (buckets : Nat) (hashes : List Nat) (bucket : Nat) : List Nat :=
  (List.range hashes.length).reverse.filter fun id => (hashes[id]?).any (· % buckets == bucket)

/-- The chain of every bucket holds the numbers whose hash falls into it. -/
structure Files (c : Chains) (hashes : List Nat) : Prop where
  size : c.next.size = hashes.length
  linked : ∀ bucket < c.bucketCount,
    Linked c.next (c.head bucket) (members c.bucketCount hashes bucket)

section Links

variable {next : Array (Option Nat)} {link : Option Nat} {ids : List Nat}

/-- Another number at the end of the links disturbs no chain. -/
theorem Linked.push (linked : Linked next link ids) (older : Option Nat) :
    Linked (next.push older) link ids := by
  induction ids generalizing link with
  | nil => exact linked
  | cons id ids ih =>
    obtain ⟨first, bound, rest⟩ := linked
    refine ⟨first, by simp; omega, ?_⟩
    rw [Array.getElem?_push, if_neg (by omega)]
    exact ih rest

/-- With room for all of a chain, following it gives all of it. -/
theorem Linked.follow_eq (linked : Linked next link ids) {room : Nat} (enough : ids.length ≤ room) :
    follow next room link = ids := by
  induction ids generalizing link room with
  | nil =>
    rw [show link = none from linked, follow]
  | cons id ids ih =>
    obtain ⟨rfl, -, rest⟩ := linked
    cases room with
    | zero => simp at enough
    | succ room =>
      have enough : ids.length ≤ room := by simpa using enough
      rw [follow, ih rest enough]

end Links

theorem members_append (buckets : Nat) (hashes : List Nat) (hash bucket : Nat) :
    members buckets (hashes ++ [hash]) bucket =
      if hash % buckets = bucket then hashes.length :: members buckets hashes bucket
      else members buckets hashes bucket := by
  have older : (List.range hashes.length).reverse.filter
      (fun id => ((hashes ++ [hash])[id]?).any (· % buckets == bucket)) = members buckets hashes bucket := by
    apply List.filter_congr
    intro id member
    have bound : id < hashes.length := by simpa using member
    rw [List.getElem?_append_left bound]
  rw [members, List.length_append, List.length_singleton, List.range_succ, List.reverse_append,
    List.reverse_singleton, List.singleton_append, List.filter_cons, older]
  simp

theorem length_members_le (buckets : Nat) (hashes : List Nat) (bucket : Nat) :
    (members buckets hashes bucket).length ≤ hashes.length := by
  have := List.length_filter_le (fun id => (hashes[id]?).any (· % buckets == bucket))
    (List.range hashes.length).reverse
  simpa [members] using this

theorem mem_members {buckets : Nat} {hashes : List Nat} {bucket id : Nat} :
    id ∈ members buckets hashes bucket ↔ ∃ hash, hashes[id]? = some hash ∧ hash % buckets = bucket := by
  rw [members, List.mem_filter, List.mem_reverse, List.mem_range, Option.any_eq_true_iff_get]
  constructor
  · rintro ⟨-, found, same⟩
    exact ⟨_, (Option.some_get found).symm, by simpa using same⟩
  · rintro ⟨hash, found, same⟩
    exact ⟨(List.getElem?_eq_some_iff.1 found).1, by simp [found], by simpa [found] using same⟩

theorem pairwise_members (buckets : Nat) (hashes : List Nat) (bucket : Nat) :
    (members buckets hashes bucket).Pairwise (· > ·) :=
  (List.pairwise_reverse.2 List.pairwise_lt_range).filter _

theorem head_file (c : Chains) (hash : Nat) {bucket : Nat} (bound : bucket < c.bucketCount) :
    (c.file hash).head bucket =
      if hash % c.bucketCount = bucket then some c.next.size else c.head bucket := by
  have bound : bucket < c.heads.size := bound
  unfold file head bucketCount
  rw [Array.getElem?_setIfInBounds]
  split
  · next same => simp [same, bound]
  · rfl

theorem files_empty (buckets : Nat) : (empty buckets).Files [] where
  size := rfl
  linked bucket bound := by
    have bound : bucket < buckets := by simpa [empty, bucketCount] using bound
    simp [Linked, members, head, empty, bound]

/-- Filing a number under its hash puts it in front of its bucket's chain. -/
theorem Files.file {c : Chains} {hashes : List Nat} (files : c.Files hashes) (hash : Nat) :
    (c.file hash).Files (hashes ++ [hash]) where
  size := by simp [files.size]
  linked bucket bound := by
    rw [bucketCount_file] at bound ⊢
    have old : Linked (c.file hash).next (c.head bucket) (members c.bucketCount hashes bucket) :=
      (files.linked bucket bound).push _
    rw [head_file c hash bound, members_append]
    by_cases own : hash % c.bucketCount = bucket
    · rw [if_pos own, if_pos own, files.size]
      refine ⟨rfl, by simp [files.size], ?_⟩
      have link : ((c.file hash).next[hashes.length]?).join = c.head bucket := by
        rw [← own, ← files.size]
        simp [Chains.file, bucketCount]
      rw [link]
      exact old
    · rw [if_neg own, if_neg own]
      exact old

theorem bucketCount_ofHashes (buckets : Nat) (hashes : List Nat) :
    (ofHashes buckets hashes).bucketCount = buckets := by
  induction hashes using List.reverseRecOn with
  | nil => simp [ofHashes, empty, bucketCount]
  | append_singleton hashes hash ih => rw [ofHashes_append, bucketCount_file, ih]

/-- A table made from a list of hashes files all of them. -/
theorem files_ofHashes (buckets : Nat) (hashes : List Nat) :
    (ofHashes buckets hashes).Files hashes := by
  induction hashes using List.reverseRecOn with
  | nil => exact files_empty buckets
  | append_singleton hashes hash ih =>
    rw [ofHashes_append]
    exact ih.file hash

/-- **The chain of a bucket** is the list of its members. -/
theorem Files.chain_eq {c : Chains} {hashes : List Nat} (files : c.Files hashes) {bucket : Nat}
    (bound : bucket < c.bucketCount) : c.chain bucket = members c.bucketCount hashes bucket :=
  (files.linked bucket bound).follow_eq (by rw [files.size]; exact length_members_le _ _ _)

end Collate.Chains
