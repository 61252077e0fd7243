import RoadRouting.Search.Bidirectional
import RoadRouting.Search.Unidirectional

namespace RoadRouting

inductive Storage where
  | sparse
  | dense
  deriving DecidableEq, Repr

inductive Algorithm (K : Type) where
  | oneToOne (name : String) (estimate : Estimate K)
  | oneToMany
  | bidirectional (name : String) (storage : Storage) (estimate : Estimate K)
      (policy : PruningPolicy K Unit) (offset : K)
  | timeDependent (direction : Direction)

namespace Algorithm

variable {K : Type} [Scalar K]

def dijkstra : Algorithm K := oneToOne "dijkstra" .zero

def aStar (estimate : Estimate K) : Algorithm K := oneToOne "astar" estimate

def bidirectionalDijkstra (offset : K) : Algorithm K :=
  bidirectional "dijkstrabi" .sparse .zero .never offset

def denseBidirectionalDijkstra (offset : K) : Algorithm K :=
  bidirectional "dijkstranativebi" .dense .zero .never offset

def bidirectionalAStar (estimate : Estimate K) (offset : K) : Algorithm K :=
  bidirectional "astarbi" .sparse estimate .never offset

def name : Algorithm K → String
  | oneToOne name _ => name
  | oneToMany => "dijkstraonetomany"
  | bidirectional name _ _ _ _ => name
  | timeDependent _ => "td_dijkstra"

end Algorithm

/-- A search that is set up. It is used up by its first query. -/
structure Searcher (K : Type) where
  settings : SearchSettings K
  algorithm : Algorithm K
  isUsed : Bool := false
  visited : Nat := 0

namespace Searcher

variable {K : Type} [Scalar K]

def withVisitLimit (s : Searcher K) (limit : Nat) : Searcher K :=
  { s with settings := { s.settings with visitLimit := limit } }

def withFilter (s : Searcher K) (filter : EdgeFilter K) : Searcher K :=
  { s with settings := { s.settings with filter } }

def timeDependent? (settings : SearchSettings K) : Except (QueryError K) (Searcher K) :=
  if settings.weighting.isTimeDependent then
    .ok { settings, algorithm := .timeDependent .forward }
  else .error (.notTimeDependent settings.weighting.description)

/-- Exchanges departure and arrival queries. -/
def flip (s : Searcher K) : Searcher K :=
  match s.algorithm with
  | .timeDependent d => { s with algorithm := .timeDependent d.opposite }
  | _ => s

/-- Answers a query unless the searcher has been used before. -/
def once {α : Type} (s : Searcher K) (query : Unit → Answer K α) :
    Except (QueryError K) α × Searcher K :=
  if s.isUsed then (.error (.alreadyRun s.algorithm.name), s)
  else
    let answer := query ()
    (answer.result, { s with isUsed := true, visited := answer.visited })

/-- The outcome for the only target. There is always one (`SearchSettings.length_of_bestRoutes`), so
a list without outcomes is no error. -/
def onlyOutcome : List (Outcome K) → Outcome K
  | outcome :: _ => outcome
  | [] => .unreachable

/-- Answers a query that prescribes neither edges nor time. -/
def answer (s : Searcher K) (source target : NodeId) : Answer K (Outcome K) :=
  match s.algorithm with
  | .oneToOne _ estimate =>
    s.settings.bestRoute (SortedQueue K) SparseMap estimate source target
  | .oneToMany =>
    let many := s.settings.bestRoutes (SortedQueue K) SparseMap source [target]
    ⟨many.visited, many.result.map onlyOutcome⟩
  | .bidirectional _ storage estimate policy offset =>
    let method : Bidirectional.Method K Unit := ⟨s.settings, estimate, policy, offset⟩
    match storage with
    | .sparse => method.bestRoute (SortedQueue K) SparseMap ⟨source, target, none, none⟩
    | .dense => method.bestRoute (SortedQueue K) DenseMap ⟨source, target, none, none⟩
  | .timeDependent d => s.settings.bestRouteAt (SortedQueue K) SparseMap d source target 0

def route (s : Searcher K) (source target : NodeId) :
    Except (QueryError K) (Outcome K) × Searcher K :=
  s.once fun _ ↦ s.answer source target

def routeBetween (s : Searcher K) (source target : NodeId) (firstEdge lastEdge : Option EdgeId) :
    Except (QueryError K) (Outcome K) × Searcher K :=
  if firstEdge.isNone && lastEdge.isNone then s.route source target
  else match s.algorithm with
    | .bidirectional _ storage estimate policy offset =>
      let method : Bidirectional.Method K Unit := ⟨s.settings, estimate, policy, offset⟩
      let query : Bidirectional.Query := ⟨source, target, firstEdge, lastEdge⟩
      match method.checkPins query with
      | .error error => (.error error, s)
      | .ok () =>
        s.once fun _ ↦
          match storage with
          | .sparse => method.bestRoute (SortedQueue K) SparseMap query
          | .dense => method.bestRoute (SortedQueue K) DenseMap query
    | algorithm => (.error (.edgeRestrictionUnsupported algorithm.name), s)

def routes (s : Searcher K) (source : NodeId) (targets : List NodeId) :
    Except (QueryError K) (List (Outcome K)) × Searcher K :=
  s.once fun _ ↦ s.settings.bestRoutes (SortedQueue K) SparseMap source targets

def routeAt (s : Searcher K) (source target : NodeId) (t : Instant) :
    Except (QueryError K) (Outcome K) × Searcher K :=
  match s.algorithm with
  | .timeDependent d =>
    s.once fun _ ↦ s.settings.bestRouteAt (SortedQueue K) SparseMap d source target t
  | _ => s.route source target

end Searcher

end RoadRouting
