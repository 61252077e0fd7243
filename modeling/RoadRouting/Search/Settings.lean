import RoadRouting.Weighting.Basic

namespace RoadRouting

/-- The identity of a state, of which a search keeps at most one label. -/
abbrev StateKey := Nat

/-- States are nodes, or directed edges, so that the cost of a turn can depend on the edge by which
a junction is approached. -/
inductive TraversalMode where
  | nodeBased
  | edgeBased
  | edgeBasedWithUTurns
  deriving DecidableEq, Repr, Inhabited

namespace TraversalMode

def ofEdgeBased (edgeBased : Bool) : TraversalMode :=
  if edgeBased then .edgeBased else .nodeBased

def isEdgeBased (m : TraversalMode) : Bool := m ≠ .nodeBased

def allowsUTurns (m : TraversalMode) : Bool := m = .edgeBasedWithUTurns

def name : TraversalMode → String
  | nodeBased => "node_based"
  | edgeBased => "edge_based"
  | edgeBasedWithUTurns => "edge_based_with_u_turns"

def ofName? (name : String) : Option TraversalMode :=
  [nodeBased, edgeBased, edgeBasedWithUTurns].find? fun m ↦ m.name = name

/-- The state reached by exploring an edge from its base. A directed edge is told by the edge and by
whether it is traveled against its stored orientation, so a forward search that travels it and a
backward search that explores it from its end agree on the key. -/
def key {K : Type} (m : TraversalMode) (e : EdgeView K) (d : Direction) : StateKey :=
  match m with
  | nodeBased => e.adj
  | _ => 2 * e.edge + (e.againstStorage ^^ d.isBackward).toNat

/-- The state of the start of a search. It is not reached through an edge, so it has none if the
states are edges. -/
def rootKey (m : TraversalMode) (node : NodeId) : Option StateKey :=
  match m with
  | nodeBased => some node
  | _ => none

end TraversalMode

structure EdgeFilter (K : Type) where
  accepts : EdgeView K → Bool
  /-- Whether the edge may be explored, given the edge traversed right before. -/
  acceptsAfter : Option EdgeId → EdgeView K → Bool := fun _ e ↦ accepts e

namespace EdgeFilter

variable {K : Type}

def all : EdgeFilter K where
  accepts _ := true

end EdgeFilter

structure SearchSettings (K : Type) where
  network : Network K
  weighting : Weighting K
  mode : TraversalMode
  filter : EdgeFilter K := .all
  visitLimit : Nat

def noVisitLimit : Nat := UInt64.size - 1

namespace SearchSettings

variable {K : Type}

/-- Whether an edge is explored after another one. Without u-turns an edge does not follow itself. -/
def allows (s : SearchSettings K) (before : Option EdgeId) (e : EdgeView K) : Bool :=
  (s.mode.allowsUTurns || before != some e.edge) && s.filter.acceptsAfter before e

def isExceeded (s : SearchSettings K) (visited : Nat) : Bool := s.visitLimit < visited

def checkNodes (s : SearchSettings K) (nodes : List NodeId) : Except (QueryError K) Unit :=
  match nodes.find? fun node ↦ s.network.nodeCount ≤ node with
  | some node => .error (.nodeOutOfBounds node s.network.nodeCount)
  | none => .ok ()

end SearchSettings

structure Answer (K α : Type) where
  visited : Nat
  result : Except (QueryError K) α
  deriving Repr

end RoadRouting
