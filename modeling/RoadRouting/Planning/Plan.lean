import RoadRouting.Json.Reader
import RoadRouting.Planning.Searcher

namespace RoadRouting

structure Options where
  algorithm : String := "astarbi"
  approximation : Bool := false
  edgeBased : Bool := false
  visitLimit : Nat := noVisitLimit
  offset : Float := 0.0
  epsilon : Float := 1.0

namespace Options

def mode (o : Options) : TraversalMode := .ofEdgeBased o.edgeBased

def fields : List Json.Field := [
  ⟨"algorithm", .defaulted⟩, ⟨"approximation", .defaulted⟩, ⟨"edge_based", .defaulted⟩,
  ⟨"max_visited_nodes", .defaulted⟩, ⟨"approximator_offset", .defaulted⟩, ⟨"epsilon", .defaulted⟩]

/-- Fields that are missing have their default. -/
def ofJson? (j : Json) : Option Options := do
  let r ← j.record? fields
  let default : Options := {}
  return {
    algorithm := ← r.getD "algorithm" Json.string? default.algorithm
    approximation := ← r.getD "approximation" Json.bool? default.approximation
    edgeBased := ← r.getD "edge_based" Json.bool? default.edgeBased
    visitLimit := ← r.getD "max_visited_nodes" (Json.nat? noVisitLimit) default.visitLimit
    offset := ← r.getD "approximator_offset" Json.float? default.offset
    epsilon := ← r.getD "epsilon" Json.float? default.epsilon }

def read? (text : String) : Option Options := (Json.parse? text).bind ofJson?

def toJson (number : Float → Json) (o : Options) : Json :=
  .ofFields [
    ("algorithm", .ofString o.algorithm),
    ("approximation", .bool o.approximation),
    ("edge_based", .bool o.edgeBased),
    ("max_visited_nodes", .ofNat o.visitLimit),
    ("approximator_offset", number o.offset),
    ("epsilon", number o.epsilon)]

end Options

inductive AlgorithmChoice where
  | dijkstra
  | bidirectionalDijkstra
  | denseBidirectionalDijkstra
  | aStar
  | bidirectionalAStar
  | oneToMany
  deriving DecidableEq, Repr

/-- Any unknown name stands for A*. -/
def AlgorithmChoice.ofName (name : String) : AlgorithmChoice :=
  if name = "dijkstrabi" then .bidirectionalDijkstra
  else if name = "dijkstranativebi" then .denseBidirectionalDijkstra
  else if name = "dijkstra" then .dijkstra
  else if name = "astarbi" then .bidirectionalAStar
  else if name = "dijkstraonetomany" then .oneToMany
  else .aStar

structure Plan where
  algorithm : String
  approximation : Bool
  edgeBased : Bool
  visitLimit : Nat
  offset : Float
  epsilon : Float

namespace Plan

def ofOptions (o : Options) : Plan where
  algorithm := Text.lowercase o.algorithm
  approximation := o.approximation
  edgeBased := o.edgeBased
  visitLimit := o.visitLimit
  offset := o.offset
  epsilon := o.epsilon

def ofName (algorithm : String) (approximation edgeBased : Bool) : Plan :=
  ofOptions { algorithm, approximation, edgeBased }

def default : Plan := ofOptions {}

def withVisitLimit (p : Plan) (limit : Nat) : Plan := { p with visitLimit := limit }

def same (p q : Plan) : Bool :=
  p.algorithm == q.algorithm && p.approximation == q.approximation && p.edgeBased == q.edgeBased &&
    p.visitLimit == q.visitLimit && p.offset == q.offset && p.epsilon == q.epsilon

def mode (p : Plan) : TraversalMode := .ofEdgeBased p.edgeBased

/-- The approximation is for A* from both ends only. -/
def metric (p : Plan) : Metric :=
  if p.approximation && p.algorithm = "astarbi" then .plane else .earth

def estimate (p : Plan) (network : Network Float) (w : Weighting Float) : Estimate Float :=
  .beeline network p.metric.distance w p.epsilon

def searchAlgorithm (p : Plan) (network : Network Float) (w : Weighting Float) : Algorithm Float :=
  match AlgorithmChoice.ofName p.algorithm with
  | .dijkstra => .dijkstra
  | .bidirectionalDijkstra => .bidirectionalDijkstra p.offset
  | .denseBidirectionalDijkstra => .denseBidirectionalDijkstra p.offset
  | .aStar => .aStar (p.estimate network w)
  | .bidirectionalAStar => .bidirectionalAStar (p.estimate network w) p.offset
  | .oneToMany => .oneToMany

def searcher (p : Plan) (network : Network Float) (w : Weighting Float) : Searcher Float where
  settings := { network, weighting := w, mode := p.mode, visitLimit := p.visitLimit }
  algorithm := p.searchAlgorithm network w

end Plan

end RoadRouting
