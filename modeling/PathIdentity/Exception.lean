import PathIdentity.Enumerated
import PathIdentity.Ids

/-!
# States of timing exceptions

A path carries states of the timing exceptions that are armed along it. What a set of such states
needs of one is gathered in `ExceptionState`: an order, in which `compare a b = .eq` is the equality
of states, a hash, and whether its exception is a loop breaker or a report filter. Nothing ties the
hash and the two classifications to the order, so states that are equal may differ in them.

`MatcherState` is the state that the exception matcher produces: an exception, its kind, and the
position reached in its list of through-points.
-/

namespace PathIdentity

/-- The kinds of timing exception. -/
inductive ExceptionKind where
  | falsePath
  /-- A path given more than one clock cycle. -/
  | multicycle
  /-- A bound on the delay of a path. -/
  | pathDelay
  /-- A report filter. -/
  | filter
  /-- A breaker of a combinational loop. -/
  | loop
  | groupPath
deriving DecidableEq

namespace ExceptionKind

/-- The place of a kind in the list of kinds. -/
def ordinal : ExceptionKind → UInt64
  | falsePath => 0
  | multicycle => 1
  | pathDelay => 2
  | filter => 3
  | loop => 4
  | groupPath => 5

/-- Whether the kind is the loop breaker. -/
def isLoop (kind : ExceptionKind) : Bool := kind = loop

/-- Whether the kind is the report filter. -/
def isFilter (kind : ExceptionKind) : Bool := kind = filter

instance : Ord ExceptionKind := ⟨fun a b => compare a.ordinal b.ordinal⟩

instance : Enumerated ExceptionKind where
  values := [falsePath, multicycle, pathDelay, filter, loop, groupPath]
  name
    | falsePath => "false_path"
    | multicycle => "multicycle"
    | pathDelay => "path_delay"
    | filter => "filter"
    | loop => "loop"
    | groupPath => "group_path"

instance : HasShape ExceptionKind where
  shape
    | falsePath => .atom "FalsePath"
    | multicycle => .atom "Multicycle"
    | pathDelay => .atom "PathDelay"
    | filter => .atom "Filter"
    | loop => .atom "Loop"
    | groupPath => .atom "GroupPath"

end ExceptionKind

/-- What a set of exception states needs of a state. -/
class ExceptionState (σ : Type) extends Ord σ where
  /-- A hash of the state. -/
  stateHash : σ → UInt64
  /-- Whether the state belongs to a loop exception. -/
  isLoop : σ → Bool
  /-- Whether the state belongs to a report filter. -/
  isFilter : σ → Bool

export ExceptionState (stateHash)

/-- Exception `exception` is armed at position `index` of its through-list. -/
structure MatcherState where
  exception : ExceptionId
  kind : ExceptionKind
  index : UInt32
deriving DecidableEq

namespace MatcherState

/-- Matcher states are ordered by exception, then kind, then position. -/
instance : Ord MatcherState :=
  ⟨fun a b => (compare a.exception b.exception).then
    ((compare a.kind b.kind).then (compare a.index b.index))⟩

/-- Exception, ordinal of the kind and position are a word each. -/
instance : Words MatcherState :=
  ⟨fun s => words s.exception ++ words s.kind.ordinal ++ words s.index⟩

instance : ExceptionState MatcherState where
  stateHash s := mix hashStart s
  isLoop s := s.kind.isLoop
  isFilter s := s.kind.isFilter

instance : HasShape MatcherState :=
  ⟨fun s => .record "MatcherState"
    [("exception", shape s.exception), ("kind", shape s.kind), ("index", shape s.index)]⟩

end MatcherState

end PathIdentity
