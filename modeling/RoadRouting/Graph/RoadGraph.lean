import RoadRouting.Graph.Network

namespace RoadRouting

/-- A node with the edges that start or end there, in the order in which they were added. -/
structure RoadGraph.Node (K : Type) where
  position : Position K
  incident : Array EdgeId

structure RoadGraph (K : Type) where
  nodes : Array (RoadGraph.Node K)
  edges : Array (StoredEdge K)
  pillars : Array (List (Position K))

namespace RoadGraph

variable {K : Type}

def empty : RoadGraph K := ⟨#[], #[], #[]⟩

def withNodes [Scalar K] (count : Nat) : RoadGraph K :=
  ⟨Array.replicate count ⟨.origin, #[]⟩, #[], #[]⟩

def addNode (g : RoadGraph K) (p : Position K) : RoadGraph K :=
  { g with nodes := g.nodes.push ⟨p, #[]⟩ }

def setPosition? (g : RoadGraph K) (node : NodeId) (p : Position K) : Option (RoadGraph K) :=
  if node < g.nodes.size then
    some { g with nodes := g.nodes.modify node fun n ↦ { n with position := p } }
  else none

def register (nodes : Array (Node K)) (node : NodeId) (id : EdgeId) : Array (Node K) :=
  nodes.modify node fun n ↦ { n with incident := n.incident.push id }

/-- Adds an edge between existing nodes; a loop is noted at its node once. -/
def addEdge? (g : RoadGraph K) (s : StoredEdge K) : Option (RoadGraph K) :=
  if s.base < g.nodes.size ∧ s.adj < g.nodes.size then
    let id := g.edges.size
    let nodes := register g.nodes s.base id
    some
      { nodes := if s.adj = s.base then nodes else register nodes s.adj id
        edges := g.edges.push s
        pillars := g.pillars.push [] }
  else none

def setPillars? (g : RoadGraph K) (edge : EdgeId) (points : List (Position K)) :
    Option (RoadGraph K) :=
  if edge < g.pillars.size then some { g with pillars := g.pillars.setIfInBounds edge points }
  else none

/-- Changes the attributes of an edge; its end nodes must stay. -/
def modifyEdge? (g : RoadGraph K) (edge : EdgeId) (change : StoredEdge K → StoredEdge K) :
    Option (RoadGraph K) :=
  if edge < g.edges.size then some { g with edges := g.edges.modify edge change } else none

def setAccess? (g : RoadGraph K) (edge : EdgeId) (access : Sides Bool) : Option (RoadGraph K) :=
  g.modifyEdge? edge fun s ↦ { s with access }

def edge? (g : RoadGraph K) (edge : EdgeId) : Option (StoredEdge K) := g.edges[edge]?

def position? (g : RoadGraph K) (node : NodeId) : Option (Position K) :=
  (g.nodes[node]?).map (·.position)

def edges? (g : RoadGraph K) (node : NodeId) (d : Direction) : Option (List (EdgeView K)) :=
  (g.nodes[node]?).map fun n ↦ incidentViews g.edges n.incident.toList node d

def geometry? (g : RoadGraph K) (e : EdgeView K) : Option (List (Position K)) := do
  return orientedPoints e (← g.position? e.base) (← g.position? e.adj) (← g.pillars[e.edge]?)

def network [Scalar K] (g : RoadGraph K) : Network K where
  nodeCount := g.nodes.size
  edgeCount := g.edges.size
  edges node d := (g.edges? node d).getD []
  position node := (g.position? node).getD .origin
  geometry e := (g.geometry? e).getD []

end RoadGraph

end RoadRouting
