/-!
# Chains of a hash table

A table files the numbers 0, 1, 2, … under hashes. Each bucket knows the number filed last,
and each number the one filed before it in its bucket, so a bucket's chain runs from the
newest number to the oldest. `Chains.ofHashes` is the table that results from filing a list
of hashes one by one. A table of any number of buckets is taken to find its room in memory.
-/

set_option autoImplicit false

namespace Collate

/-- Bucket heads and the links behind them. -/
structure Chains where
  /-- The newest number of each bucket. -/
  heads : Array (Option Nat)
  /-- For each number the next older one of its bucket. -/
  next : Array (Option Nat)
  deriving DecidableEq, Repr

namespace Chains

/-- A table of empty buckets. -/
def empty (buckets : Nat) : Chains := ⟨Array.replicate buckets none, #[]⟩

/-- The number of buckets. -/
def bucketCount (c : Chains) : Nat := c.heads.size

/-- The newest number of a bucket. -/
def head (c : Chains) (bucket : Nat) : Option Nat := (c.heads[bucket]?).join

/-- The next number filed, under the bucket that its hash falls into. -/
def file (c : Chains) (hash : Nat) : Chains :=
  let bucket := hash % c.heads.size
  let older := c.head bucket
  let id := c.next.size
  ⟨c.heads.setIfInBounds bucket (some id), c.next.push older⟩

/-- The table of a list of hashes, filed in order. -/
def ofHashes (buckets : Nat) (hashes : List Nat) : Chains :=
  hashes.foldl file (empty buckets)

/-- The numbers met from a link on, at most so many. -/
def follow (next : Array (Option Nat)) : (room : Nat) → Option Nat → List Nat
  | _, none => []
  | 0, some _ => []
  | room + 1, some id => id :: follow next room (next[id]?).join

/-- The numbers of a bucket, newest first. -/
def chain (c : Chains) (bucket : Nat) : List Nat :=
  follow c.next c.next.size (c.head bucket)

theorem ofHashes_append (buckets : Nat) (hashes : List Nat) (hash : Nat) :
    ofHashes buckets (hashes ++ [hash]) = (ofHashes buckets hashes).file hash := by
  simp [ofHashes, List.foldl_append]

@[simp] theorem size_next_file (c : Chains) (hash : Nat) :
    (c.file hash).next.size = c.next.size + 1 := by
  simp [file]

@[simp] theorem bucketCount_file (c : Chains) (hash : Nat) :
    (c.file hash).bucketCount = c.bucketCount := by
  simp [file, bucketCount]

end Chains

end Collate
