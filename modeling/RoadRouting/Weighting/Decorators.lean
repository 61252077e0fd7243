import RoadRouting.Access
import RoadRouting.Weighting.Basic

namespace RoadRouting

/-- The cost in seconds of turning from an edge at a node into an edge; infinity forbids the turn. -/
abbrev TurnCosts (K : Type) := EdgeId → NodeId → EdgeId → K

structure Turn where
  source : EdgeId
  via : NodeId
  target : EdgeId
  deriving DecidableEq, Repr

namespace Turn

def order : Turn → Turn → Ordering :=
  compareLex (compareOn (·.source)) (compareLex (compareOn (·.via)) (compareOn (·.target)))

instance : Std.TransCmp order :=
  inferInstanceAs (Std.TransCmp (compareLex _ (compareLex _ _)))

end Turn

/-- Listed turn costs. Other turns are free, and turning back costs the same everywhere, whatever is
listed for it. -/
structure TurnTable (K : Type) where
  costs : Std.TreeMap Turn K Turn.order
  uTurnCost : K

namespace TurnTable

variable {K : Type}

def empty [Scalar K] : TurnTable K := ⟨∅, Scalar.infinity⟩

def withUTurnCost (t : TurnTable K) (cost : K) : TurnTable K := { t with uTurnCost := cost }

def set (t : TurnTable K) (turn : Turn) (cost : K) : TurnTable K :=
  { t with costs := t.costs.insert turn cost }

def restrict [Scalar K] (t : TurnTable K) (turn : Turn) : TurnTable K := t.set turn Scalar.infinity

def size (t : TurnTable K) : Nat := t.costs.size

def isEmpty (t : TurnTable K) : Bool := t.costs.isEmpty

def cost [Scalar K] (t : TurnTable K) : TurnCosts K := fun source via target ↦
  if source = target then t.uTurnCost else (t.costs[Turn.mk source via target]?).getD 0

end TurnTable

namespace Weighting

variable {K : Type} [Scalar K]

/-- The cost of the turn between an edge and its neighbour. The turn is at the node from which the
edge is explored, in travel order: out of the neighbour, or into it when traveling backward. -/
def turnWeight (turns : TurnCosts K) (e : EdgeView K) (d : Direction) : Option EdgeId → K
  | none => 0
  | some neighbour =>
    match d with
    | .forward => turns neighbour e.base e.firstPart
    | .backward => turns e.firstPart e.base neighbour

def millisPerSecond : K := 1000.0

/-- A forbidden turn takes no time. -/
def turnDuration (turns : TurnCosts K) (e : EdgeView K) (d : Direction) (neighbour : Option EdgeId) :
    Duration :=
  let cost := turnWeight turns e d neighbour
  if Scalar.isFinite cost then Scalar.truncate (cost * millisPerSecond) else 0

/-- Adds turn costs. They need the neighbour, so they are complete only where states are edges. -/
def withTurns (inner : Weighting K) (turns : TurnCosts K) : Weighting K where
  weight e d neighbour := do
    return (← inner.weight e d neighbour) + turnWeight turns e d neighbour
  weightAt e d neighbour t := do
    return (← inner.weightAt e d neighbour t) + turnWeight turns e d neighbour
  duration e d neighbour := do
    return (← inner.duration e d neighbour) + turnDuration turns e d neighbour
  durationAt e d neighbour t := do
    return (← inner.durationAt e d neighbour t) + turnDuration turns e d neighbour
  minWeight := inner.minWeight
  name := inner.name
  description := "turn|" ++ inner.description
  isTimeDependent := inner.isTimeDependent

variable {K : Type} [Scalar K]

/-- Edges have an infinite weight at the instants at which the policy does not let them be entered.
Without an instant nothing is closed. -/
def withAccess (inner : Weighting K) (access : AccessPolicy K) : Weighting K where
  weight := inner.weight
  weightAt e d neighbour t :=
    if access e t then inner.weightAt e d neighbour t else .ok Scalar.infinity
  duration := inner.duration
  durationAt := inner.durationAt
  minWeight := inner.minWeight
  name := inner.name
  description := "td_access|" ++ inner.description
  isTimeDependent := true

end Weighting

end RoadRouting
