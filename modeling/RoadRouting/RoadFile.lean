import RoadRouting.Graph.PackedGraph
import RoadRouting.Weighting.Decorators

namespace RoadRouting

structure RoadFile.Road (K : Type) where
  source : NodeId
  target : NodeId
  /-- Meters; if omitted, the length of the line through the points. -/
  distance : Option K
  /-- Speed from source to target in km/h; zero closes that direction. -/
  speed : K
  /-- Speed from target to source, which is the same if omitted. -/
  backwardSpeed : Option K
  oneWay : Bool
  geometry : List (Position K)
  closed : List Window

structure RoadFile.TurnEntry (K : Type) where
  source : EdgeId
  via : NodeId
  target : EdgeId
  cost : Option K

structure RoadFile (K : Type) where
  nodes : List (Position K)
  roads : List (RoadFile.Road K)
  turnRestrictions : List (RoadFile.TurnEntry K)
  turnCosts : List (RoadFile.TurnEntry K)

namespace RoadFile

def largestId : Nat := UInt32.size - 1

def id? : Json → Option Nat := Json.nat? largestId

def position? (j : Json) : Option (Position Float) := do
  match ← j.list? Json.float? with
  | [x, y] => some ⟨x, y⟩
  | _ => none

def roadFields : List Json.Field := [
  ⟨"from", .required⟩, ⟨"to", .required⟩, ⟨"distance", .nullable⟩, ⟨"speed", .required⟩,
  ⟨"backward_speed", .nullable⟩, ⟨"oneway", .defaulted⟩, ⟨"geometry", .defaulted⟩,
  ⟨"closed", .defaulted⟩]

def road? (j : Json) : Option (Road Float) := do
  let r ← j.record? roadFields
  return {
    source := ← r.get? "from" id?
    target := ← r.get? "to" id?
    distance := ← r.getD "distance" (Json.option? Json.float?) none
    speed := ← r.get? "speed" Json.float?
    backwardSpeed := ← r.getD "backward_speed" (Json.option? Json.float?) none
    oneWay := ← r.getD "oneway" Json.bool? false
    geometry := ← r.getD "geometry" (Json.list? position?) []
    closed := ← r.getD "closed" (Json.list? Window.ofJson?) [] }

def turnFields : List Json.Field := [
  ⟨"from_edge", .required⟩, ⟨"via", .required⟩, ⟨"to_edge", .required⟩, ⟨"cost", .nullable⟩]

def turn? (j : Json) : Option (TurnEntry Float) := do
  let r ← j.record? turnFields
  return {
    source := ← r.get? "from_edge" id?
    via := ← r.get? "via" id?
    target := ← r.get? "to_edge" id?
    cost := ← r.getD "cost" (Json.option? Json.float?) none }

def fields : List Json.Field := [
  ⟨"nodes", .required⟩, ⟨"edges", .required⟩, ⟨"turn_restrictions", .defaulted⟩,
  ⟨"turn_costs", .defaulted⟩]

def ofJson? (j : Json) : Option (RoadFile Float) := do
  let r ← j.record? fields
  return {
    nodes := ← r.get? "nodes" (Json.list? position?)
    roads := ← r.get? "edges" (Json.list? road?)
    turnRestrictions := ← r.getD "turn_restrictions" (Json.list? turn?) []
    turnCosts := ← r.getD "turn_costs" (Json.list? turn?) [] }

def read? (text : String) : Option (RoadFile Float) := (Json.parse? text).bind ofJson?

end RoadFile

structure LoadedRoads (K : Type) where
  graph : PackedGraph K
  turns : TurnTable K
  access : AccessRules

inductive LoadError (K : Type) where
  | unknownNode (edge : EdgeId) (source target : NodeId) (nodes : Nat)
  | invalidSpeed (edge : EdgeId) (speed : K)
  | invalidBackwardSpeed (edge : EdgeId) (speed : K)
  | invalidDistance (edge : EdgeId) (distance : K)
  | unknownEdge (source target : EdgeId)
  | invalidCost (source target : EdgeId) (cost : K)
  deriving DecidableEq, Repr

def LoadError.message : LoadError Float → String
  | unknownNode edge source target nodes =>
    "edge " ++ toString edge ++ " connects " ++ toString source ++ " and " ++ toString target ++
      ", but there are only " ++ toString nodes ++ " nodes"
  | invalidSpeed edge speed =>
    "edge " ++ toString edge ++ " has invalid speed " ++ Decimal.plain speed
  | invalidBackwardSpeed edge speed =>
    "edge " ++ toString edge ++ " has invalid backward speed " ++ Decimal.plain speed
  | invalidDistance edge distance =>
    "edge " ++ toString edge ++ " has invalid distance " ++ Decimal.plain distance
  | unknownEdge source target =>
    "turn " ++ toString source ++ " -> " ++ toString target ++ " refers to an unknown edge"
  | invalidCost source target cost =>
    "turn " ++ toString source ++ " -> " ++ toString target ++ " has invalid cost " ++
      Decimal.plain cost

namespace RoadFile

variable {K : Type} [Scalar K]

def isUsable (x : K) : Bool := !Scalar.isNaN x && !decide (x < 0)

def lineLength (metric : Position K → Position K → K) (points : List (Position K)) : K :=
  Scalar.sum (points.zipWith metric points.tail)

def roadLength (metric : Position K → Position K → K) (source target : Position K) (edge : EdgeId)
    (r : Road K) : Except (LoadError K) K :=
  match r.distance with
  | some distance =>
    if Scalar.isFinite distance && !decide (distance < 0) then .ok distance
    else .error (.invalidDistance edge distance)
  | none => .ok (lineLength metric (source :: r.geometry ++ [target]))

/-- A direction with speed zero is closed. A backward speed counts unless the road is one-way. -/
def storedEdge (r : Road K) (distance : K) : StoredEdge K :=
  let forward := !(r.speed == 0)
  if r.oneWay then
    { StoredEdge.oneWay r.source r.target distance r.speed with access := ⟨forward, false⟩ }
  else
    match r.backwardSpeed with
    | none => { StoredEdge.twoWay r.source r.target distance r.speed with access := ⟨forward, true⟩ }
    | some backward =>
      ⟨r.source, r.target, distance, ⟨forward, decide (0 < backward)⟩, ⟨r.speed, backward⟩⟩

/-- The faults of a road are looked for in this order: its nodes, its speeds, its length. -/
def checkRoad (metric : Position K → Position K → K) (nodes : Array (Position K)) (edge : EdgeId)
    (r : Road K) : Except (LoadError K) (StoredEdge K) :=
  match nodes[r.source]?, nodes[r.target]? with
  | some source, some target => do
    if !isUsable r.speed then .error (.invalidSpeed edge r.speed)
    if let some backward := r.backwardSpeed then
      if !isUsable backward then .error (.invalidBackwardSpeed edge backward)
    return storedEdge r (← roadLength metric source target edge r)
  | _, _ => .error (.unknownNode edge r.source r.target nodes.size)

def addRoad (g : RoadGraph K) (s : StoredEdge K) (points : List (Position K)) : RoadGraph K :=
  let edge := g.edges.size
  match (g.addEdge? s).bind (·.setPillars? edge points) with
  | some g => g
  | none => g

def loadRoads (metric : Position K → Position K → K) (nodes : Array (Position K)) :
    RoadGraph K → AccessRules → List (Road K) → Except (LoadError K) (RoadGraph K × AccessRules)
  | g, access, [] => .ok (g, access)
  | g, access, r :: rest => do
    let edge := g.edges.size
    let s ← checkRoad metric nodes edge r
    loadRoads metric nodes (addRoad g s r.geometry)
      (r.closed.foldl (fun a w ↦ a.closeDuring edge w) access) rest

def loadTurns (edges : Nat) : TurnTable K → List (TurnEntry K) → Except (LoadError K) (TurnTable K)
  | table, [] => .ok table
  | table, t :: rest => do
    if edges ≤ t.source || edges ≤ t.target then .error (.unknownEdge t.source t.target)
    match t.cost with
    | some cost =>
      if isUsable cost then loadTurns edges (table.set ⟨t.source, t.via, t.target⟩ cost) rest
      else .error (.invalidCost t.source t.target cost)
    | none => loadTurns edges (table.restrict ⟨t.source, t.via, t.target⟩) rest

def load (metric : Position K → Position K → K) (file : RoadFile K) :
    Except (LoadError K) (LoadedRoads K) := do
  let bare := file.nodes.foldl RoadGraph.addNode .empty
  let (g, access) ← loadRoads metric file.nodes.toArray bare .empty file.roads
  let turns ← loadTurns file.roads.length .empty (file.turnRestrictions ++ file.turnCosts)
  return ⟨.pack g, turns, access⟩

end RoadFile

end RoadRouting
