import PathIdentity.Shape

/-!
# The registry of a pool

A `Registry` is what a pool knows of its entries. It lists their serial numbers in buckets, one
bucket for each content hash in use, and keeps four kinds of count: the entries that are alive, the
serial that comes next, the room asked for, and the `Stats` of what has been done.
-/

namespace PathIdentity

/-- What a pool has done so far. -/
structure Stats where
  /-- Staging sets promoted. -/
  promotions : Nat := 0
  /-- Promotions of empty sets. -/
  sentinelPromotions : Nat := 0
  /-- Promotions that found their entry. -/
  hits : Nat := 0
  /-- Promotions that made an entry. -/
  inserts : Nat := 0
  /-- Entries removed after their last handle was dropped. -/
  evictions : Nat := 0
deriving DecidableEq

instance : HasShape Stats where
  shape s := .record "PoolStats"
    [("promotions", shape s.promotions), ("sentinel_promotions", shape s.sentinelPromotions),
      ("hits", shape s.hits), ("inserts", shape s.inserts), ("evictions", shape s.evictions)]

/-! ## Buckets -/

/-- Serial numbers by content hash. -/
abbrev Buckets := List (UInt64 × List Nat)

namespace Buckets

/-- The bucket of a hash. -/
def get? (hash : UInt64) (b : Buckets) : Option (List Nat) := b.lookup hash

/-- All serials. -/
def serials (b : Buckets) : List Nat := b.flatMap (·.2)

/-- The buckets with a serial added at the end of the bucket of a hash. -/
def add (hash : UInt64) (serial : Nat) : Buckets → Buckets
  | [] => [(hash, [serial])]
  | (key, bucket) :: rest =>
    if key = hash then (key, bucket ++ [serial]) :: rest else (key, bucket) :: add hash serial rest

/-- The buckets with only some serials kept in the bucket of a hash; no empty bucket is left. -/
def prune (hash : UInt64) (keep : Nat → Bool) (b : Buckets) : Buckets :=
  b.filterMap fun (key, bucket) =>
    if key = hash then
      let kept := bucket.filter keep
      if kept.isEmpty then none else some (key, kept)
    else some (key, bucket)

end Buckets

/-! ## Registries -/

/-- What a pool knows of its entries. -/
structure Registry where
  /-- The number of distinct hashes that room was asked for. -/
  capacity : Nat
  buckets : Buckets := []
  /-- The number of entries that are alive. -/
  live : Nat := 0
  /-- The serial of the next entry. -/
  nextSerial : Nat := 0
  stats : Stats := {}
deriving DecidableEq

namespace Registry

/-- The serials under a hash. -/
def bucket (r : Registry) (hash : UInt64) : List Nat := (r.buckets.get? hash).getD []

/-- Counts a promotion. -/
def countPromotion (r : Registry) : Registry :=
  { r with stats := { r.stats with promotions := r.stats.promotions + 1 } }

/-- Counts a promotion of an empty set. -/
def countSentinel (r : Registry) : Registry :=
  { r with stats := { r.stats with sentinelPromotions := r.stats.sentinelPromotions + 1 } }

/-- Counts a promotion that found its entry. -/
def countHit (r : Registry) : Registry :=
  { r with stats := { r.stats with hits := r.stats.hits + 1 } }

/-- Registers a new entry of a hash under the next serial. -/
def register (r : Registry) (hash : UInt64) : Registry :=
  { r with
    buckets := r.buckets.add hash r.nextSerial
    live := r.live + 1
    nextSerial := r.nextSerial + 1
    stats := { r.stats with inserts := r.stats.inserts + 1 } }

/-- The number of serials in the bucket of a hash that are not to be kept. -/
def dead (r : Registry) (hash : UInt64) (keep : Nat → Bool) : Nat :=
  (r.bucket hash).length - ((r.bucket hash).filter keep).length

/-- Drops from the bucket of a hash the serials that are not to be kept. -/
def evict (r : Registry) (hash : UInt64) (keep : Nat → Bool) : Registry :=
  { r with
    buckets := r.buckets.prune hash keep
    live := r.live - r.dead hash keep
    stats := { r.stats with evictions := r.stats.evictions + r.dead hash keep } }

instance : HasShape Registry where
  shape r := .record "ExceptionStatePool" [("live", shape r.live), ("stats", shape r.stats)]

end Registry

end PathIdentity
