import RoadRouting.Scalar

namespace RoadRouting

inductive Direction where
  | forward
  | backward
  deriving DecidableEq, Repr, Inhabited

namespace Direction

def ofBackward (backward : Bool) : Direction := if backward then .backward else .forward

def isBackward : Direction → Bool
  | forward => false
  | backward => true

def opposite : Direction → Direction
  | forward => backward
  | backward => forward

@[simp] theorem opposite_opposite (d : Direction) : d.opposite.opposite = d := by
  cases d <;> rfl

def name : Direction → String
  | forward => "Forward"
  | backward => "Backward"

end Direction

/-- One value for each direction of a road. -/
structure Sides (α : Type) where
  along : α
  against : α
  deriving DecidableEq, Repr

namespace Sides

variable {α : Type}

def get (s : Sides α) : Direction → α
  | .forward => s.along
  | .backward => s.against

def swap (s : Sides α) : Sides α := ⟨s.against, s.along⟩

def both (a : α) : Sides α := ⟨a, a⟩

@[simp] theorem swap_swap (s : Sides α) : s.swap.swap = s := rfl

end Sides

abbrev NodeId := Nat

abbrev EdgeId := Nat

/-- An edge explored from `base`, with `adj` on its other side. What depends on the direction is
given for traveling `base → adj` (along) and `adj → base` (against). -/
structure EdgeView (K : Type) where
  edge : EdgeId
  base : NodeId
  adj : NodeId
  distance : K
  access : Sides Bool
  speed : Sides K
  /-- The road edge at the `base` end, which is `edge` unless this edge stands for several. -/
  firstPart : EdgeId
  lastPart : EdgeId
  /-- Whether `base` and `adj` are exchanged compared to how the edge is stored. -/
  againstStorage : Bool
  deriving DecidableEq, Repr

namespace EdgeView

variable {K : Type}

def isLoop (e : EdgeView K) : Bool := e.base = e.adj

def reversed (e : EdgeView K) : EdgeView K where
  edge := e.edge
  base := e.adj
  adj := e.base
  distance := e.distance
  access := e.access.swap
  speed := e.speed.swap
  firstPart := e.lastPart
  lastPart := e.firstPart
  againstStorage := !e.againstStorage

@[simp] theorem reversed_reversed (e : EdgeView K) : e.reversed.reversed = e := by
  simp [reversed]

/-- The side that is read when the edge is traveled in a direction. The two directions of a loop
cannot be told apart, so loops are always read along. -/
def reading (e : EdgeView K) (d : Direction) : Direction :=
  if e.isLoop then .forward else d

def isOpen (e : EdgeView K) (d : Direction) : Bool := e.access.get (e.reading d)

def same [Scalar K] (e f : EdgeView K) : Bool :=
  e.edge == f.edge && e.base == f.base && e.adj == f.adj && e.distance == f.distance &&
    e.access == f.access && e.speed.along == f.speed.along && e.speed.against == f.speed.against &&
    e.firstPart == f.firstPart && e.lastPart == f.lastPart && e.againstStorage == f.againstStorage

end EdgeView

/-- An edge with its attributes for `base → adj` (along) and `adj → base` (against). -/
structure StoredEdge (K : Type) where
  base : NodeId
  adj : NodeId
  distance : K
  access : Sides Bool
  speed : Sides K
  deriving DecidableEq, Repr

namespace StoredEdge

variable {K : Type}

def twoWay (base adj : NodeId) (distance speed : K) : StoredEdge K :=
  ⟨base, adj, distance, .both true, .both speed⟩

def oneWay [Scalar K] (base adj : NodeId) (distance speed : K) : StoredEdge K :=
  ⟨base, adj, distance, ⟨true, false⟩, ⟨speed, 0⟩⟩

def stored (s : StoredEdge K) (id : EdgeId) : EdgeView K where
  edge := id
  base := s.base
  adj := s.adj
  distance := s.distance
  access := s.access
  speed := s.speed
  firstPart := id
  lastPart := id
  againstStorage := false

def view (s : StoredEdge K) (id : EdgeId) (node : NodeId) : EdgeView K :=
  if node = s.base then s.stored id else (s.stored id).reversed

end StoredEdge

end RoadRouting
