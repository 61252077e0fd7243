import RoadRouting.Search.Exploration
import RoadRouting.Search.Route

namespace RoadRouting

namespace SearchSettings

variable {K : Type} [Scalar K] (Q M : Type) [PriorityQueue Q K] [BestMap M]

def exploreToward (s : SearchSettings K) (h : Estimate K) (source target : NodeId) :
    Explored K Q M (Option LabelId) :=
  let estimate := h.toward (some target)
  (s.exploration .forward estimate).explore (Watch.reach target) s.visitLimit
    (.root source (estimate source)) (s.mode.rootKey source) none

def routeTo {Q M : Type} [PriorityQueue Q K] [BestMap M] (s : SearchSettings K) (source : NodeId)
    (f : Frontier K Q M) (goal : LabelId) : Except (QueryError K) (Route K) :=
  Route.ofEdges s.weighting source (f.pathTo goal) (f.label goal).cost

def bestRoute (s : SearchSettings K) (h : Estimate K) (source target : NodeId) :
    Answer K (Outcome K) :=
  match s.checkNodes [source, target] with
  | .error error => ⟨0, .error error⟩
  | .ok () =>
    let explored := s.exploreToward Q M h source target
    { visited := explored.visited
      result := do
        match ← explored.ending, explored.watched with
        | .limited, _ => return .visitLimitReached
        | .done, some goal => return .found (← s.routeTo source explored.frontier goal)
        | _, _ => return .unreachable }

end SearchSettings

/-- Which targets are still to be reached, and the labels of those that have been. -/
structure TargetsSeen where
  remaining : List NodeId
  settled : List (NodeId × LabelId)
  deriving DecidableEq, Repr

def Watch.reachAll {K : Type} : Watch K TargetsSeen where
  note seen id l :=
    if seen.remaining.contains l.node then
      ⟨seen.remaining.filter (· ≠ l.node), (l.node, id) :: seen.settled⟩
    else seen
  isDone seen := seen.remaining.isEmpty

namespace SearchSettings

variable {K : Type} [Scalar K] (Q M : Type) [PriorityQueue Q K] [BestMap M]

def exploreAll (s : SearchSettings K) (source : NodeId) (targets : List NodeId) :
    Explored K Q M TargetsSeen :=
  (s.exploration .forward fun _ ↦ 0).explore .reachAll s.visitLimit (.root source 0)
    (s.mode.rootKey source) ⟨targets, []⟩

/-- What is known about a target when the exploration has ended. -/
def outcomeFor {Q M : Type} [PriorityQueue Q K] [BestMap M] (s : SearchSettings K) (source : NodeId)
    (explored : Explored K Q M TargetsSeen) (ending : Ending) (target : NodeId) :
    Except (QueryError K) (Outcome K) :=
  match explored.watched.settled.lookup target with
  | some goal => (s.routeTo source explored.frontier goal).map .found
  | none => .ok (if ending = .limited then .visitLimitReached else .unreachable)

def bestRoutes (s : SearchSettings K) (source : NodeId) (targets : List NodeId) :
    Answer K (List (Outcome K)) :=
  match s.checkNodes (source :: targets) with
  | .error error => ⟨0, .error error⟩
  | .ok () =>
    let explored := s.exploreAll Q M source targets
    { visited := explored.visited
      result := do
        let ending ← explored.ending
        targets.mapM (s.outcomeFor source explored ending) }

variable {K : Type} [Scalar K] (Q M : Type) [PriorityQueue Q K] [BestMap M]

def exploreFrom (s : SearchSettings K) (d : Direction) (start goal : NodeId) (t : Instant) :
    Explored K Q M (Option LabelId) :=
  (s.timedExploration d).explore (Watch.reach goal) s.visitLimit ((Label.root start 0).withTime t)
    (s.mode.rootKey start) none

def travelEdges {Q M : Type} [PriorityQueue Q K] [BestMap M] (f : Frontier K Q M) (goal : LabelId) :
    Direction → List (EdgeView K)
  | .forward => f.pathTo goal
  | .backward => f.pathFrom goal

def timeBetween (t u : Instant) : Duration := UInt64.ofNat (t - u).toInt.natAbs

def timedRouteTo {Q M : Type} [PriorityQueue Q K] [BestMap M] (source : NodeId) (d : Direction)
    (t : Instant) (f : Frontier K Q M) (goal : LabelId) : Route K :=
  let l := f.label goal
  .ofEdgesWithDuration source (travelEdges f goal d) l.cost (timeBetween l.time t)

/-- The best route that departs at an instant (forward), or arrives then (backward). -/
def bestRouteAt (s : SearchSettings K) (d : Direction) (source target : NodeId) (t : Instant) :
    Answer K (Outcome K) :=
  match s.checkNodes [source, target] with
  | .error error => ⟨0, .error error⟩
  | .ok () =>
    let (start, goal) := match d with
      | .forward => (source, target)
      | .backward => (target, source)
    let explored := s.exploreFrom Q M d start goal t
    { visited := explored.visited
      result := do
        match ← explored.ending, explored.watched with
        | .limited, _ => return .visitLimitReached
        | .done, some label => return .found (timedRouteTo source d t explored.frontier label)
        | _, _ => return .unreachable }

end SearchSettings

end RoadRouting
