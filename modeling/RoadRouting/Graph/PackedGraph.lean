import RoadRouting.Graph.RoadGraph
import RoadRouting.Json.Reader

namespace RoadRouting

structure PackedGraph (K : Type) where
  positions : Array (Position K)
  edges : Array (StoredEdge K)
  /-- Where the edges of each node begin in `incident`, and at the end where they all end. -/
  offsets : Array Nat
  incident : Array EdgeId
  points : Array (Position K)
  geometry : Array (Nat × Nat)

namespace PackedGraph

variable {K : Type}

/-- Lists put behind each other, with the begin and end of each. -/
def concat {α : Type} (lists : List (List α)) : Array α × Array (Nat × Nat) :=
  lists.foldl (fun (all, ranges) xs ↦
    (all ++ xs.toArray, ranges.push (all.size, all.size + xs.length))) (#[], #[])

def pack (g : RoadGraph K) : PackedGraph K :=
  let (incident, nodeRanges) := concat (g.nodes.toList.map (·.incident.toList))
  let (points, geometry) := concat g.pillars.toList
  { positions := g.nodes.map (·.position)
    edges := g.edges
    offsets := (nodeRanges.map (·.1)).push incident.size
    incident
    points
    geometry }

def edge? (g : PackedGraph K) (edge : EdgeId) : Option (StoredEdge K) := g.edges[edge]?

def position? (g : PackedGraph K) (node : NodeId) : Option (Position K) := g.positions[node]?

def edges? (g : PackedGraph K) (node : NodeId) (d : Direction) : Option (List (EdgeView K)) := do
  let start ← g.offsets[node]?
  let stop ← g.offsets[node + 1]?
  return incidentViews g.edges (g.incident.extract start stop).toList node d

def geometry? (g : PackedGraph K) (e : EdgeView K) : Option (List (Position K)) := do
  let base ← g.position? e.base
  let adj ← g.position? e.adj
  let (start, stop) ← g.geometry[e.edge]?
  return orientedPoints e base adj (g.points.extract start stop).toList

def network [Scalar K] (g : PackedGraph K) : Network K where
  nodeCount := g.positions.size
  edgeCount := g.edges.size
  edges node d := (g.edges? node d).getD []
  position node := (g.position? node).getD .origin
  geometry e := (g.geometry? e).getD []

def positionToJson (number : Float → Json) (p : Position Float) : Json :=
  .ofFields [("x", number p.x), ("y", number p.y)]

def edgeToJson (number : Float → Json) (s : StoredEdge Float) : Json :=
  .ofFields [
    ("base", .ofNat s.base), ("adj", .ofNat s.adj), ("distance", number s.distance),
    ("access", .array [.bool s.access.along, .bool s.access.against]),
    ("speed", .array [number s.speed.along, number s.speed.against])]

def toJson (number : Float → Json) (g : PackedGraph Float) : Json :=
  .ofFields [
    ("positions", .array (g.positions.toList.map (positionToJson number))),
    ("edges", .array (g.edges.toList.map (edgeToJson number))),
    ("offsets", .array (g.offsets.toList.map Json.ofNat)),
    ("incident", .array (g.incident.toList.map Json.ofNat)),
    ("points", .array (g.points.toList.map (positionToJson number))),
    ("geometry",
      .array (g.geometry.toList.map fun (start, stop) ↦ .array [.ofNat start, .ofNat stop]))]

def largestIndex : Nat := UInt32.size - 1

def index? : Json → Option Nat := Json.nat? largestIndex

def pair? {α : Type} (read : Json → Option α) (j : Json) : Option (α × α) := do
  match ← j.list? read with
  | [a, b] => some (a, b)
  | _ => none

def sides? {α : Type} (read : Json → Option α) (j : Json) : Option (Sides α) :=
  (pair? read j).map fun (along, against) ↦ ⟨along, against⟩

def positionOfJson? (j : Json) : Option (Position Float) := do
  let r ← j.record? [⟨"x", .required⟩, ⟨"y", .required⟩]
  return ⟨← r.get? "x" Json.float?, ← r.get? "y" Json.float?⟩

def edgeOfJson? (j : Json) : Option (StoredEdge Float) := do
  let r ← j.record? [
    ⟨"base", .required⟩, ⟨"adj", .required⟩, ⟨"distance", .required⟩, ⟨"access", .required⟩,
    ⟨"speed", .required⟩]
  return {
    base := ← r.get? "base" index?
    adj := ← r.get? "adj" index?
    distance := ← r.get? "distance" Json.float?
    access := ← r.get? "access" (sides? Json.bool?)
    speed := ← r.get? "speed" (sides? Json.float?) }

def ofJson? (j : Json) : Option (PackedGraph Float) := do
  let r ← j.record? [
    ⟨"positions", .required⟩, ⟨"edges", .required⟩, ⟨"offsets", .required⟩,
    ⟨"incident", .required⟩, ⟨"points", .required⟩, ⟨"geometry", .required⟩]
  return {
    positions := (← r.get? "positions" (Json.list? positionOfJson?)).toArray
    edges := (← r.get? "edges" (Json.list? edgeOfJson?)).toArray
    offsets := (← r.get? "offsets" (Json.list? index?)).toArray
    incident := (← r.get? "incident" (Json.list? index?)).toArray
    points := (← r.get? "points" (Json.list? positionOfJson?)).toArray
    geometry := (← r.get? "geometry" (Json.list? (pair? index?))).toArray }

end PackedGraph

end RoadRouting
