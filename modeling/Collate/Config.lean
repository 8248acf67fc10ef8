import Collate.Error
import Collate.Text.Numeral

/-!
# Tuning of the operators

Two sizes can be tuned: how many buckets a lookup starts with, and how many slots a buffer
takes first when its source cannot say how long it is. Both must be at least one.
-/

set_option autoImplicit false

namespace Collate

/-- The tunable sizes. -/
structure Config where
  /-- Buckets of a lookup before its first group. -/
  initialBuckets : Nat := 7
  /-- Slots of a buffer after its first element, when the source hides its length. -/
  bufferSeed : Nat := 4
  deriving DecidableEq, Repr, Inhabited

namespace Config

/-- The sizes used where nothing else is said. -/
def default : Config := {}

/-- Refuses a size of zero; the bucket count is looked at first. -/
def validate (config : Config) : Except Error Unit :=
  if config.initialBuckets = 0 then
    .error (.config "initial_bucket_count must be at least 1")
  else if config.bufferSeed = 0 then
    .error (.config "buffer_seed_capacity must be at least 1")
  else
    .ok ()

/-- A configuration with the given fields put in place of its own. -/
def override (config : Config) (initialBuckets bufferSeed : Option Nat) : Config where
  initialBuckets := initialBuckets.getD config.initialBuckets
  bufferSeed := bufferSeed.getD config.bufferSeed

/-- The defaults overridden by those of two texts that are numerals. -/
def ofTexts (initialBuckets bufferSeed : Option String) : Config :=
  default.override (initialBuckets.bind fun s => Text.word? s.toList)
    (bufferSeed.bind fun s => Text.word? s.toList)

theorem validate_eq_ok_iff {config : Config} :
    config.validate = .ok () ↔ 1 ≤ config.initialBuckets ∧ 1 ≤ config.bufferSeed := by
  unfold validate
  split
  · simp; omega
  · split
    · simp; omega
    · simp; omega

end Config

end Collate
