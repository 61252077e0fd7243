import RoadRouting.Calendar
import RoadRouting.Graph.Network
import Std.Data.TreeMap

namespace RoadRouting

/-- Why a query has no answer. A queue that turns out to be empty and labels that meet on different
edges are not among the reasons: `Frontier.pop?_eq_none_iff`, `SearchSettings.length_of_bestRoutes`
and `Bidirectional.Method.incomingEdge_eq_of_tryEdge` rule them out. -/
inductive QueryError (K : Type) where
  | alreadyRun (algorithm : String)
  | edgeRestrictionRequiresEdgeBased
  | edgeRestrictionUnsupported (algorithm : String)
  | notTimeDependent (weighting : String)
  | invalidSpeed (edge : EdgeId) (speed : K)
  | zeroSpeed (edge : EdgeId)
  | blockedDirection (edge : EdgeId) (base adj : NodeId) (reverse : Bool)
  | nodeOutOfBounds (node : NodeId) (nodes : Nat)
  deriving DecidableEq, Repr

namespace QueryError

def message : QueryError Float → String
  | alreadyRun algorithm =>
    algorithm ++ " has already been used for a query, create a new instance"
  | edgeRestrictionRequiresEdgeBased =>
    "restricting the start/target edges is only possible for edge-based traversal"
  | edgeRestrictionUnsupported algorithm =>
    algorithm ++ " does not support restricting the start/target edges"
  | notTimeDependent weighting =>
    "a time-dependent routing algorithm requires a time-dependent weighting, got " ++ weighting
  | invalidSpeed edge speed =>
    "invalid speed " ++ Decimal.plain speed ++ " stored in edge " ++ toString edge
  | zeroSpeed edge =>
    "speed cannot be 0 for unblocked edge " ++ toString edge ++
      ", use access flags to mark it blocked"
  | blockedDirection edge base adj reverse =>
    "calculating time should not read speed of edge " ++ toString edge ++ " (" ++ toString base ++
      " - " ++ toString adj ++ ") in a blocked direction, reverse: " ++ toString reverse
  | nodeOutOfBounds node nodes =>
    "node " ++ toString node ++ " does not exist, the graph has " ++ toString nodes ++ " nodes"

end QueryError

/-- Prices and durations of edges. The direction says which way the edge is traveled; the neighbour
is the edge traveled right before it, or right after it when it is traveled backward, and none at
the start of a search. An infinite weight marks a direction that cannot be traveled. -/
structure Weighting (K : Type) where
  weight : EdgeView K → Direction → Option EdgeId → Except (QueryError K) K
  weightAt : EdgeView K → Direction → Option EdgeId → Instant → Except (QueryError K) K :=
    fun e d neighbour _ ↦ weight e d neighbour
  duration : EdgeView K → Direction → Option EdgeId → Except (QueryError K) Duration
  durationAt : EdgeView K → Direction → Option EdgeId → Instant → Except (QueryError K) Duration :=
    fun e d neighbour _ ↦ duration e d neighbour
  /-- A lower bound of the weight of all paths of a length in meters; it has to be linear. -/
  minWeight : K → K
  name : String
  description : String := name
  isTimeDependent : Bool := false

namespace Weighting

variable {K : Type} [Scalar K]

def secondsFactor : K := 3.6

def millisFactor : K := 3600.0

/-- Refuses speeds at which no open edge can be traveled. -/
def checkedSpeed (e : EdgeView K) (speed : K) : Except (QueryError K) K :=
  if Scalar.isInfinite speed || Scalar.isNaN speed || speed < 0 then
    .error (.invalidSpeed e.edge speed)
  else if speed == 0 then .error (.zeroSpeed e.edge)
  else .ok speed

def travelSeconds (e : EdgeView K) (speed : K) : Except (QueryError K) K := do
  return e.distance * secondsFactor / (← checkedSpeed e speed)

def travelDuration (e : EdgeView K) (side : Direction) (speed : K) :
    Except (QueryError K) Duration := do
  if !e.access.get side then
    .error (.blockedDirection e.edge e.base e.adj side.isBackward)
  return Scalar.truncate (e.distance * millisFactor / (← checkedSpeed e speed))

end Weighting

/-- The speed in km/h on a side of an edge that is entered at an instant, if that is known. -/
structure SpeedSource (K : Type) where
  speed : EdgeView K → Direction → Option Instant → K
  isTimeDependent : Bool := false

namespace SpeedSource

variable {K : Type}

def stored : SpeedSource K where
  speed e side _ := e.speed.get side

end SpeedSource

structure HourlyFactors (K : Type) where
  profiles : Std.TreeMap EdgeId (Vector K 24)

namespace HourlyFactors

variable {K : Type}

def empty : HourlyFactors K := ⟨∅⟩

def set (h : HourlyFactors K) (edge : EdgeId) (factors : Vector K 24) : HourlyFactors K :=
  ⟨h.profiles.insert edge factors⟩

variable [Scalar K]

/-- The factor is one for edges without a profile and for instants outside of the calendar. -/
def factor (h : HourlyFactors K) (edge : EdgeId) (t : Instant) : K :=
  match h.profiles[edge]?, Moment.ofInstant? t with
  | some factors, some m => (factors[m.hour]?).getD 1.0
  | _, _ => 1.0

def source (h : HourlyFactors K) : SpeedSource K where
  speed e side at? :=
    match at? with
    | some t => e.speed.get side * h.factor e.edge t
    | none => e.speed.get side
  isTimeDependent := true

end HourlyFactors

namespace Weighting

variable {K : Type} [Scalar K]

/-- Seconds on the side that is read for a direction, infinite if that side is closed. -/
def secondsAt (speeds : SpeedSource K) (e : EdgeView K) (d : Direction) (at? : Option Instant) :
    Except (QueryError K) K :=
  if e.isOpen d then travelSeconds e (speeds.speed e (e.reading d) at?) else .ok Scalar.infinity

def millisAt (speeds : SpeedSource K) (e : EdgeView K) (d : Direction) (at? : Option Instant) :
    Except (QueryError K) Duration :=
  travelDuration e (e.reading d) (speeds.speed e (e.reading d) at?)

/-- The weight is the travel time in seconds. No speed of the graph may exceed `maxSpeed`. -/
def fastest (speeds : SpeedSource K) (maxSpeed : K) : Weighting K where
  weight e d _ := secondsAt speeds e d none
  weightAt e d _ t := secondsAt speeds e d (some t)
  duration e d _ := millisAt speeds e d none
  durationAt e d _ t := millisAt speeds e d (some t)
  minWeight distance := distance / maxSpeed * secondsFactor
  name := "fastest"
  isTimeDependent := speeds.isTimeDependent

def shortest (speeds : SpeedSource K) : Weighting K where
  weight e d _ := .ok (if e.isOpen d then e.distance else Scalar.infinity)
  duration e d _ := millisAt speeds e d none
  durationAt e d _ t := millisAt speeds e d (some t)
  minWeight distance := distance
  name := "shortest"

end Weighting

/-- Estimates the weight from a node to the target. A search with an estimate finds best paths if
the estimate never overshoots. -/
structure Estimate (K : Type) where
  name : String
  toward : Option NodeId → NodeId → K

namespace Estimate

variable {K : Type} [Scalar K]

def zero : Estimate K := ⟨"zero", fun _ _ ↦ 0⟩

/-- The straight-line distance times the least weight per meter times a factor. Factors above one
make for less search but can overshoot. Without a target the distance is that to the origin. -/
def beeline (network : Network K) (distance : Position K → Position K → K) (w : Weighting K)
    (factor : K) : Estimate K where
  name := "beeline"
  toward target node :=
    let goal := match target with
      | some t => network.position t
      | none => .origin
    distance (network.position node) goal * w.minWeight 1.0 * factor

/-- The estimates for searching from both ends, balanced so that the forward and the backward value
of a node sum to zero. -/
def balanced (h : Estimate K) (source target : NodeId) (d : Direction) (node : NodeId) : K :=
  let toTarget := h.toward (some target) node
  let toSource := h.toward (some source) node
  match d with
  | .forward => (toTarget - toSource) * 0.5
  | .backward => (toSource - toTarget) * 0.5

end Estimate

end RoadRouting
