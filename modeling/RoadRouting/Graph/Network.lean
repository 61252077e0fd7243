import RoadRouting.Graph.Edge

namespace RoadRouting

structure Position (K : Type) where
  x : K
  y : K
  deriving DecidableEq, Repr

namespace Position

variable {K : Type} [Scalar K]

def origin : Position K := ⟨0, 0⟩

instance : BEq (Position K) := ⟨fun p q ↦ p.x == q.x && p.y == q.y⟩

end Position

def earthRadius : Float := 6371008.8

def pi : Float := 3.14159265358979323846264338327950288

def radians (degrees : Float) : Float := degrees * (pi / 180.0)

/-- Length in meters of the great circle between two points, by the haversine formula. -/
def greatCircle (p q : Position Float) : Float :=
  let latitude := radians p.y
  let latitude' := radians q.y
  let dLatitude := radians (q.y - p.y)
  let dLongitude := radians (q.x - p.x)
  let a := Float.sin (dLatitude / 2.0) * Float.sin (dLatitude / 2.0) +
    Float.cos latitude * Float.cos latitude' *
      (Float.sin (dLongitude / 2.0) * Float.sin (dLongitude / 2.0))
  earthRadius * (2.0 * Float.asin (Float.sqrt a))

/-- Distance in meters on a plane map that is true to scale at the mean latitude. -/
def planeDistance (p q : Position Float) : Float :=
  let meanLatitude := radians ((p.y + q.y) / 2.0)
  let dx := radians (q.x - p.x) * Float.cos meanLatitude
  let dy := radians (q.y - p.y)
  earthRadius * Float.sqrt (dx * dx + dy * dy)

inductive Metric where
  | earth
  | plane
  deriving DecidableEq, Repr, Inhabited

namespace Metric

def distance : Metric → Position Float → Position Float → Float
  | earth => greatCircle
  | plane => planeDistance

def name : Metric → String
  | earth => "earth"
  | plane => "plane"

end Metric

structure Network (K : Type) where
  nodeCount : Nat
  edgeCount : Nat
  /-- The views from a node of the edges that can be traveled out of it (forward) or into it
  (backward), in the order in which they were added. -/
  edges : NodeId → Direction → List (EdgeView K)
  position : NodeId → Position K
  /-- The points of an edge from `base` to `adj`, both included. -/
  geometry : EdgeView K → List (Position K)

namespace Network

variable {K : Type}

def edgeBetween? (n : Network K) (source target : NodeId) : Option (EdgeView K) :=
  (n.edges source .forward).find? fun e ↦ e.adj = target

end Network

def incidentViews {K : Type} (edges : Array (StoredEdge K)) (ids : List EdgeId) (node : NodeId)
    (d : Direction) : List (EdgeView K) :=
  (ids.filterMap fun id ↦ (edges[id]?).map fun s ↦ s.view id node).filter fun e ↦ e.isOpen d

def orientedPoints {K : Type} (e : EdgeView K) (base adj : Position K)
    (pillars : List (Position K)) : List (Position K) :=
  base :: (if e.againstStorage then pillars.reverse else pillars) ++ [adj]

end RoadRouting
