import ClassAudit.Bytes

/-!
# Bounded caches

A cache keeps the values of the keys used last, up to its capacity. The most recent
entry stands first; an entry that does not fit any more is the least recent one.
-/

set_option autoImplicit false

namespace ClassAudit

/-- A cache of values by key, the most recent first. -/
structure Cache (α : Type) where
  capacity : Nat
  entries : List (Bytes × α) := []
  deriving DecidableEq, Repr

namespace Cache

variable {α : Type}

/-- The entries of other keys. -/
def without (cache : Cache α) (key : Bytes) : List (Bytes × α) :=
  cache.entries.filter fun entry => entry.1 != key

/-- The value of a key. -/
def get? (cache : Cache α) (key : Bytes) : Option α := cache.entries.lookup key

/-- Makes a key the most recent one, if the cache has it. -/
def refresh (cache : Cache α) (key : Bytes) : Cache α :=
  match cache.get? key with
  | some value => { cache with entries := (key, value) :: cache.without key }
  | none => cache

/-- Sets the value of a key and makes it the most recent one. The least recent entry
gives way when the cache is full. -/
def insert (cache : Cache α) (key : Bytes) (value : α) : Cache α :=
  { cache with entries := ((key, value) :: cache.without key).take cache.capacity }

end Cache

end ClassAudit
