import PathIdentity.Pool.Event
import PathIdentity.Staging

/-!
# Pools of canonical sets

A `Store` holds the registries of the pools that are in use and the entries that have handles. A
staging set is promoted in a pool (`Store.promote`): an empty one to the sentinel, any other to the
entry of that pool with the same members, which is made if there is none. Handles are counted:
`Store.share` adds one to an entry and `Store.release` drops one; the last drop removes the entry
and evicts it from its pool, if the pool is still there. An entry may outlive its pool.

Entries keep everything about their content, so it depends neither on the pool nor on later
promotions; in particular the flags are those of the staging set that made the entry.
-/

namespace PathIdentity

/-! ## Content -/

/-- The hash of a list of states: the hashes of the states mixed in turn. -/
def setHash {σ : Type} [ExceptionState σ] (members : List σ) : UInt64 :=
  mixAll hashStart (members.map stateHash)

/-- Whether two lists hold equal states in the same places. -/
def sameStates {σ : Type} [Ord σ] (a b : List σ) : Bool :=
  a.isEqv b fun x y => compare x y == .eq

/-- A canonical set. -/
structure Entry (σ : Type) where
  id : EntryId
  /-- The states, ascending. -/
  members : List σ
  /-- The hash of the states. -/
  hash : UInt64
  hasLoop : Bool
  hasFilter : Bool
  /-- The number of live handles. -/
  handles : Nat

/-- A reference to an entry, or the sentinel, which stands for the empty set and has no entry. -/
inductive Handle where
  | sentinel
  | entry (id : EntryId)
deriving DecidableEq

/-! ## Stores -/

/-- The pools in use and the entries that have handles. -/
structure Store (σ : Type) where
  registries : List (PoolId × Registry) := []
  entries : List (Entry σ) := []
  /-- The number of the next pool. -/
  nextPool : Nat := 0

/-- The outcome of a promotion. -/
structure Promotion (σ : Type) where
  handle : Handle
  store : Store σ
  events : List Event

namespace Store

variable {σ : Type}

/-- The registry of a pool in use. -/
def registryOf? (s : Store σ) (pool : PoolId) : Option Registry := s.registries.lookup pool

/-- The store with another registry for a pool in use. -/
def setRegistry (s : Store σ) (pool : PoolId) (r : Registry) : Store σ :=
  { s with registries := s.registries.map fun (p, old) => (p, if p = pool then r else old) }

/-- The entry of an identity. -/
def entryAt? (s : Store σ) (id : EntryId) : Option (Entry σ) := s.entries.find? (·.id = id)

/-- The store with the number of handles of an entry changed. -/
def changeHandles (s : Store σ) (id : EntryId) (change : Nat → Nat) : Store σ :=
  let changed (e : Entry σ) : Entry σ :=
    if e.id = id then { e with handles := change e.handles } else e
  { s with entries := s.entries.map changed }

/-! ## Pools -/

/-- A new pool, with room for `capacity` hashes. -/
def newPool (s : Store σ) (capacity : Nat) : PoolId × Store σ :=
  let pool : PoolId := ⟨s.nextPool⟩
  (pool, { s with
    registries := s.registries ++ [(pool, { capacity })]
    nextPool := s.nextPool + 1 })

/-- Drops a pool; its entries stay as long as they have handles. -/
def dropPool (s : Store σ) (pool : PoolId) : Store σ × List Event :=
  match s.registryOf? pool with
  | none => (s, [])
  | some r =>
    ({ s with registries := s.registries.filter (·.1 ≠ pool) },
      [.poolDropped pool r.live r.stats])

/-! ## Handles -/

/-- One more handle to the same entry. -/
def share (s : Store σ) : Handle → Store σ
  | .sentinel => s
  | .entry id => s.changeHandles id (· + 1)

/-- Removes an entry from the registry of its pool, if the pool is in use. All serials in its bucket
that no longer have an entry go. -/
def evict (s : Store σ) (e : Entry σ) : Store σ × List Event :=
  match s.registryOf? e.id.pool with
  | none => (s, [])
  | some r =>
    match r.buckets.get? e.hash with
    | none => (s, [])
    | some _ =>
      let r := r.evict e.hash fun serial => (s.entryAt? ⟨e.id.pool, serial⟩).isSome
      (s.setRegistry e.id.pool r, [.evicted e.id e.hash r.live])

/-- Drops a handle. -/
def release (s : Store σ) : Handle → Store σ × List Event
  | .sentinel => (s, [])
  | .entry id =>
    match s.entryAt? id with
    | none => (s, [])
    | some e =>
      if e.handles ≤ 1 then { s with entries := s.entries.filter (·.id ≠ id) }.evict e
      else (s.changeHandles id (· - 1), [])

/-! ## Promotion -/

variable [ExceptionState σ]

/-- The first entry in the bucket of a hash with the given members. -/
def find? (s : Store σ) (pool : PoolId) (r : Registry) (hash : UInt64) (members : List σ) :
    Option (Entry σ) :=
  ((r.bucket hash).filterMap fun serial => s.entryAt? ⟨pool, serial⟩).find? fun e =>
    sameStates e.members members

/-- The entry that a promotion makes. -/
def makeEntry (id : EntryId) (staging : Staging σ) : Entry σ where
  id := id
  members := staging.members
  hash := setHash staging.members
  hasLoop := staging.hasLoop
  hasFilter := staging.hasFilter
  handles := 1

/-- Promotes a staging set with members in a pool whose registry is `r`. -/
def promoteMembers (s : Store σ) (pool : PoolId) (r : Registry) (staging : Staging σ) :
    Promotion σ :=
  let hash := setHash staging.members
  match s.find? pool r hash staging.members with
  | some e =>
    ⟨.entry e.id, (s.setRegistry pool r.countHit).share (.entry e.id), [.reused e.id hash]⟩
  | none =>
    let e := makeEntry ⟨pool, r.nextSerial⟩ staging
    let r := r.register hash
    ⟨.entry e.id, { s.setRegistry pool r with entries := s.entries ++ [e] },
      [.registered e.id hash e.members.length r.live]⟩

/-- The canonical handle of a staging set in a pool that is in use. -/
def promote (s : Store σ) (pool : PoolId) (staging : Staging σ) : Option (Promotion σ) :=
  (s.registryOf? pool).map fun r =>
    if staging.isEmpty then
      ⟨.sentinel, s.setRegistry pool r.countPromotion.countSentinel, []⟩
    else s.promoteMembers pool r.countPromotion staging

end Store

end PathIdentity
