import PathIdentity.Shape
import PathIdentity.Words

/-!
# Identities of design objects

Clock edges, pins, vertices, analysis points and exceptions belong to other parts of a timing
engine; a path identity only stores their numbers. `Id kind` is the number of an object of a kind,
ordered by number, and `PathRef` points at a path by the vertex that holds it and the index of its
tag there.
-/

namespace PathIdentity

/-- The kinds of object that an identity refers to. -/
inductive IdKind where
  | clockEdge
  | pin
  | vertex
  | pathAp
  | exception
deriving DecidableEq

/-- The name of the type of ids of a kind. -/
def IdKind.typeName : IdKind → String
  | clockEdge => "ClockEdgeId"
  | pin => "PinId"
  | vertex => "VertexId"
  | pathAp => "PathApIndex"
  | exception => "ExceptionId"

/-- The number of an object of a kind. -/
structure Id (kind : IdKind) where
  number : UInt32
deriving DecidableEq, Inhabited

/-- A transition of a clock: the clock and its rising or falling edge. -/
abbrev ClockEdgeId := Id .clockEdge

/-- A pin of the network. -/
abbrev PinId := Id .pin

/-- A vertex of the timing graph. -/
abbrev VertexId := Id .vertex

/-- A path analysis point: a corner together with a min or max view. -/
abbrev PathApIndex := Id .pathAp

/-- A timing exception. -/
abbrev ExceptionId := Id .exception

namespace Id

variable {kind : IdKind}

instance : Ord (Id kind) := ⟨fun a b => compare a.number b.number⟩

instance : Words (Id kind) := ⟨fun a => words a.number⟩

instance : HasShape (Id kind) := ⟨fun a => .tuple kind.typeName [shape a.number]⟩

end Id

/-- A path stored on a vertex of the timing graph. -/
structure PathRef where
  /-- The vertex that holds the path. -/
  vertex : VertexId
  /-- The index of the path's tag at the vertex. -/
  tagIndex : UInt32
deriving DecidableEq

namespace PathRef

/-- Paths are ordered by vertex, then by tag index. -/
instance : Ord PathRef :=
  ⟨fun a b => (compare a.vertex b.vertex).then (compare a.tagIndex b.tagIndex)⟩

instance : HasShape PathRef :=
  ⟨fun a => .record "PathRef" [("vertex", shape a.vertex), ("tag_index", shape a.tagIndex)]⟩

end PathRef

end PathIdentity
