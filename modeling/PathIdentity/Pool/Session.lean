import PathIdentity.NameMap
import PathIdentity.Pool.Handle

/-!
# Sessions

A `Session` is a run of operations on any number of pools, staging sets and handles, each under a
name of its own kind. `Session.step` performs one operation and gives the events that it caused; it
fails only for a name that is not in use. A new value is made before it takes a name, and the old
value of the name is dropped after that.
-/

namespace PathIdentity

/-- The state of a run. -/
structure Session (σ : Type) where
  store : Store σ := {}
  pools : NameMap PoolId := []
  stagings : NameMap (Staging σ) := []
  handles : NameMap Handle := []

/-- An operation. -/
inductive Operation (σ : Type) where
  | newPool (pool : String) (capacity : Nat)
  | dropPool (pool : String)
  | newStaging (staging : String)
  | collect (staging : String) (states : List σ)
  | insert (staging : String) (state : σ)
  | extend (staging : String) (states : List σ)
  | clear (staging : String)
  /-- Moves the content of a staging set to another name; an empty set is left. -/
  | take (staging target : String)
  /-- Moves a staging set as a whole into the place of another. -/
  | takeOver (staging source : String)
  | promote (pool staging handle : String)
  /-- Promotes the set of some states. -/
  | intern (pool : String) (states : List σ) (handle : String)
  | newSentinel (handle : String)
  | clone (handle target : String)
  | drop (handle : String)
  /-- Drops every handle, in the order of their names. -/
  | dropAll

namespace Session

variable {σ : Type}

/-- The session with a pool under a name. -/
def putPool (s : Session σ) (name : String) (pool : PoolId) : Session σ × List Event :=
  let placed := { s with pools := s.pools.put name pool }
  match s.pools.get? name with
  | none => (placed, [])
  | some old =>
    let (store, events) := s.store.dropPool old
    ({ placed with store }, events)

/-- The session with a handle under a name. -/
def putHandle (s : Session σ) (name : String) (h : Handle) : Session σ × List Event :=
  let placed := { s with handles := s.handles.put name h }
  match s.handles.get? name with
  | none => (placed, [])
  | some old =>
    let (store, events) := s.store.release old
    ({ placed with store }, events)

/-- The session with a staging set under a name. -/
def putStaging (s : Session σ) (name : String) (staging : Staging σ) : Session σ :=
  { s with stagings := s.stagings.put name staging }

/-- Drops handles in turn. -/
def releaseAll (store : Store σ) : List Handle → Store σ × List Event
  | [] => (store, [])
  | h :: rest =>
    let (store, events) := store.release h
    let (store, later) := releaseAll store rest
    (store, events ++ later)

variable [ExceptionState σ]

/-- Promotes a staging set into a handle under a name. -/
def promote (s : Session σ) (pool : PoolId) (staging : Staging σ) (name : String) :
    Option (Session σ × List Event) := do
  let p ← s.store.promote pool staging
  let (s, events) := { s with store := p.store }.putHandle name p.handle
  return (s, p.events ++ events)

/-- The session after an operation, and the events of the operation. -/
def step (s : Session σ) : Operation σ → Option (Session σ × List Event)
  | .newPool pool capacity =>
    let (id, store) := s.store.newPool capacity
    some ({ s with store }.putPool pool id)
  | .dropPool pool => do
    let id ← s.pools.get? pool
    let (store, events) := s.store.dropPool id
    return ({ s with store, pools := s.pools.erase pool }, events)
  | .newStaging staging => some (s.putStaging staging .empty, [])
  | .collect staging states => some (s.putStaging staging (.ofList states), [])
  | .insert staging state => do
    let set ← s.stagings.get? staging
    return (s.putStaging staging (set.insert state), [])
  | .extend staging states => do
    let set ← s.stagings.get? staging
    return (s.putStaging staging (set.extend states), [])
  | .clear staging => do
    let _ ← s.stagings.get? staging
    return (s.putStaging staging .empty, [])
  | .take staging target => do
    let set ← s.stagings.get? staging
    let (taken, left) := set.take
    return ((s.putStaging staging left).putStaging target taken, [])
  | .takeOver staging source => do
    let set ← s.stagings.get? source
    let s := { s with stagings := s.stagings.erase source }
    let _ ← s.stagings.get? staging
    return (s.putStaging staging set, [])
  | .promote pool staging handle => do
    let id ← s.pools.get? pool
    let set ← s.stagings.get? staging
    { s with stagings := s.stagings.erase staging }.promote id set handle
  | .intern pool states handle => do
    let id ← s.pools.get? pool
    s.promote id (.ofList states) handle
  | .newSentinel handle => some (s.putHandle handle .sentinel)
  | .clone handle target => do
    let h ← s.handles.get? handle
    return { s with store := s.store.share h }.putHandle target h
  | .drop handle => do
    let h ← s.handles.get? handle
    let (store, events) := s.store.release h
    return ({ s with store, handles := s.handles.erase handle }, events)
  | .dropAll =>
    let (store, events) := releaseAll s.store (s.handles.map (·.2))
    some ({ s with store, handles := [] }, events)

/-- The session after a list of operations, and their events in order. -/
def run (s : Session σ) : List (Operation σ) → Option (Session σ × List Event)
  | [] => some (s, [])
  | op :: ops => do
    let (s, events) ← s.step op
    let (s, later) ← s.run ops
    return (s, events ++ later)

end Session

end PathIdentity
