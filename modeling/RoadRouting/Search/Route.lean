import RoadRouting.Graph.Network
import RoadRouting.Weighting.Basic

namespace RoadRouting

/-- A route. Its edges are seen in travel direction, so each one begins where the one before ends. -/
structure Route (K : Type) where
  edges : List (EdgeView K)
  nodes : List NodeId
  weight : K
  duration : Duration
  distance : K
  deriving DecidableEq, Repr

namespace Route

variable {K : Type} [Scalar K]

def trivial (node : NodeId) : Route K := ⟨[], [node], 0, 0, 0⟩

def nodesAlong (start : NodeId) (edges : List (EdgeView K)) : List NodeId :=
  (match edges.head? with
    | some e => e.base
    | none => start) :: edges.map (·.adj)

def ofEdgesWithDuration (start : NodeId) (edges : List (EdgeView K)) (weight : K)
    (duration : Duration) : Route K where
  edges
  nodes := nodesAlong start edges
  weight
  duration
  distance := Scalar.sum (edges.map (·.distance))

/-- The time taken by edges that are traveled after each other and after the edge `before`. -/
def totalDuration (w : Weighting K) (before : Option EdgeId) (total : Duration) :
    List (EdgeView K) → Except (QueryError K) Duration
  | [] => .ok total
  | e :: rest => do
    let time ← w.duration e .forward before
    totalDuration w (some e.edge) (total + time) rest

def ofEdges (w : Weighting K) (start : NodeId) (edges : List (EdgeView K)) (weight : K) :
    Except (QueryError K) (Route K) := do
  return ofEdgesWithDuration start edges weight (← totalDuration w none 0 edges)

def first (r : Route K) : NodeId := r.nodes.head?.getD 0

def last (r : Route K) : NodeId := r.nodes.getLast?.getD 0

def length (r : Route K) : Nat := r.edges.length

def isEmpty (r : Route K) : Bool := r.edges.isEmpty

def addPoint (points : List (Position K)) (p : Position K) : List (Position K) :=
  match points with
  | [] => [p]
  | q :: _ => if q == p then points else p :: points

/-- Points in order, each unless it equals the one kept before it. -/
def joinPoints (points : List (Position K)) : List (Position K) := (points.foldl addPoint []).reverse

def geometry (r : Route K) (points : EdgeView K → List (Position K)) : List (Position K) :=
  joinPoints (r.edges.flatMap points)

end Route

/-- The answer to a query. Not to find a route is an answer too. -/
inductive Outcome (K : Type) where
  | found (route : Route K)
  | unreachable
  | visitLimitReached
  deriving DecidableEq, Repr

namespace Outcome

variable {K : Type}

def route? : Outcome K → Option (Route K)
  | found r => some r
  | _ => none

def isFound (o : Outcome K) : Bool := o.route?.isSome

def weight? (o : Outcome K) : Option K := o.route?.map (·.weight)

def name : Outcome K → String
  | found _ => "found"
  | unreachable => "unreachable"
  | visitLimitReached => "visit_limit_reached"

end Outcome

end RoadRouting
