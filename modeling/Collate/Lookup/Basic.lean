import Collate.Comparer.Equality
import Collate.Config
import Collate.Lookup.Chains

/-!
# Lookups

A lookup groups elements under keys. Groups keep the order in which their keys first
occurred, and a group its elements in the order of arrival. Groups are found through hash
chains: the search in a bucket goes from the newest group to the oldest and takes the first
whose stored hash is the query's and whose key equals the query. When the groups outnumber
the buckets, all are filed anew in twice as many buckets and one.
-/

set_option autoImplicit false

namespace Collate

/-- The elements that share a key, in order of arrival. -/
structure Group (K V : Type) where
  key : K
  /-- The stored hash of the key. -/
  hash : Nat
  elements : Array V
  deriving DecidableEq, Repr

/-- Groups in order of first occurrence, with the table that finds them. -/
structure Lookup (K V : Type) where
  equality : Equality K
  groups : Array (Group K V)
  chains : Chains
  /-- How many times the groups have been filed anew. -/
  rehashes : Nat

namespace Lookup

variable {K V : Type}

/-- A lookup without groups. -/
def empty (equality : Equality K) (buckets : Nat) : Lookup K V :=
  ⟨equality, #[], Chains.empty buckets, 0⟩

def size (l : Lookup K V) : Nat := l.groups.size

def isEmpty (l : Lookup K V) : Bool := l.groups.isEmpty

def bucketCount (l : Lookup K V) : Nat := l.chains.bucketCount

/-- A group answers a query when its stored hash is the query's and its key equals it. -/
def answers (equality : Equality K) (hash : Nat) (query : K) (g : Group K V) : Bool :=
  g.hash == hash && equality.equals g.key query

/-- The place of the first group, newest first, that answers a query in its bucket. -/
def find? (l : Lookup K V) (query : K) (hash : Nat) : Option Nat :=
  (l.chains.chain (hash % l.bucketCount)).find? fun id =>
    match l.groups[id]? with
    | some g => answers l.equality hash query g
    | none => false

/-- The place of a key's group. -/
def indexOf? (l : Lookup K V) (query : K) : Option Nat :=
  l.find? query (l.equality.storedHash query)

/-- The group at a place. -/
def groupAt? (l : Lookup K V) (index : Nat) : Option (Group K V) := l.groups[index]?

/-- The group of a key. -/
def group? (l : Lookup K V) (query : K) : Option (Group K V) :=
  (l.indexOf? query).bind l.groupAt?

/-- The elements under a key; none if the key has no group. -/
def get (l : Lookup K V) (query : K) : Array V :=
  match l.group? query with
  | some g => g.elements
  | none => #[]

def contains (l : Lookup K V) (query : K) : Bool := (l.group? query).isSome

def keys (l : Lookup K V) : List K := l.groups.toList.map Group.key

/-- Every element, group after group. -/
def flatten (l : Lookup K V) : List V := l.groups.toList.flatMap fun g => g.elements.toList

/-- All groups filed anew in twice as many buckets as there are groups, and one. -/
def rehash (l : Lookup K V) : Lookup K V :=
  { l with
    chains := Chains.ofHashes (2 * l.groups.size + 1) (l.groups.toList.map Group.hash)
    rehashes := l.rehashes + 1 }

/-- A new group with its first element, filed under its hash. -/
def create (l : Lookup K V) (key : K) (hash : Nat) (value : V) : Lookup K V :=
  let filed : Lookup K V :=
    { l with groups := l.groups.push ⟨key, hash, #[value]⟩, chains := l.chains.file hash }
  if filed.bucketCount < filed.size then filed.rehash else filed

/-- One more element behind those of the group at a place. -/
def append (l : Lookup K V) (index : Nat) (value : V) : Lookup K V :=
  { l with groups := l.groups.modify index fun g => { g with elements := g.elements.push value } }

/-- An element put under a key: into the group that answers it, or into a new one. -/
def insert (l : Lookup K V) (key : K) (value : V) : Lookup K V :=
  let hash := l.equality.storedHash key
  match l.find? key hash with
  | some index => l.append index value
  | none => l.create key hash value

/-- `insert` with the bucket count held to what a machine word can count. -/
def push (l : Lookup K V) (key : K) (value : V) : Except Error (Lookup K V) :=
  let l := l.insert key value
  if l.bucketCount ≤ Text.wordMax then .ok l else .error (.capacityOverflow l.size)

end Lookup

end Collate
