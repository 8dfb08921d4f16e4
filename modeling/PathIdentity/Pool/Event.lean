import PathIdentity.Pool.Registry

/-!
# Identities of pools and entries, and what happens to them

Pools are numbered in the order in which they are made, and an entry is known by its pool and its
serial in that pool. No number is used twice, so equal identities mean the same entry for good. An
`Event` reports what becomes of an entry or a pool.
-/

namespace PathIdentity

/-- The number of a pool. -/
structure PoolId where
  number : Nat
deriving DecidableEq

/-- The identity of an entry. -/
structure EntryId where
  /-- The pool that made the entry. -/
  pool : PoolId
  /-- The number of the entry in its pool. -/
  serial : Nat
deriving DecidableEq

/-- What becomes of an entry or a pool. -/
inductive Event where
  /-- A promotion found its entry. -/
  | reused (entry : EntryId) (hash : UInt64)
  /-- A promotion made an entry; `live` counts it. -/
  | registered (entry : EntryId) (hash : UInt64) (size live : Nat)
  /-- The last handle of an entry was dropped; `live` no longer counts it. -/
  | evicted (entry : EntryId) (hash : UInt64) (live : Nat)
  /-- A pool was dropped. -/
  | poolDropped (pool : PoolId) (live : Nat) (stats : Stats)
deriving DecidableEq

namespace Event

/-- The text of an event. -/
def message : Event → String
  | reused .. => "reused exception-state set"
  | registered .. => "registered exception-state set"
  | evicted .. => "evicted exception-state set"
  | poolDropped .. => "dropping exception-state pool"

/-- The level at which an event is reported. -/
def level : Event → String
  | poolDropped .. => "DEBUG"
  | _ => "TRACE"

/-- The pool of an event. -/
def pool : Event → PoolId
  | reused entry _ => entry.pool
  | registered entry .. => entry.pool
  | evicted entry .. => entry.pool
  | poolDropped pool .. => pool

end Event

end PathIdentity
