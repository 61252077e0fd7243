import RoadRouting.Search.Frontier
import RoadRouting.Search.Settings
import RoadRouting.Weighting.Basic

namespace RoadRouting

structure Exploration (K : Type) where
  edges : NodeId → List (EdgeView K)
  allows : Option EdgeId → EdgeView K → Bool
  price : Label K → EdgeView K → Except (QueryError K) K
  /-- The label at the other end of an edge, given the cost of the path up to there. -/
  extend : LabelId → Label K → EdgeView K → K → Except (QueryError K) (Label K)
  key : EdgeView K → StateKey

/-- Observes the labels as they are settled, and says when it has seen enough. -/
structure Watch (K σ : Type) where
  note : σ → LabelId → Label K → σ
  isDone : σ → Bool

inductive Ending where
  | done
  | exhausted
  | limited
  deriving DecidableEq, Repr

/-- An exploration that has ended; the count is right after an error too. -/
structure Explored (K Q M σ : Type) where
  frontier : Frontier K Q M
  visited : Nat
  watched : σ
  ending : Except (QueryError K) Ending

namespace Exploration

variable {K Q M σ : Type} [Scalar K] [PriorityQueue Q K] [BestMap M]

/-- Explores one edge from a label. Gives the label that became the best one of its state, if the
edge is open and leads to its end at a lower cost than known before. -/
def tryEdge (x : Exploration K) (id : LabelId) (l : Label K) (f : Frontier K Q M) (e : EdgeView K) :
    Except (QueryError K) (Frontier K Q M × Option LabelId) :=
  if x.allows l.incomingEdge e then do
    let weight ← x.price l e
    if Scalar.isInfinite weight then return (f, none)
    let cost := l.cost + weight
    if f.improves (x.key e) cost then
      let next ← x.extend id l e cost
      let (f, nextId) := f.store (x.key e) next
      return (f, some nextId)
    else return (f, none)
  else .ok (f, none)

def expand (x : Exploration K) (id : LabelId) (l : Label K) (f : Frontier K Q M)
    (edges : List (EdgeView K)) : Except (QueryError K) (Frontier K Q M) :=
  edges.foldlM (fun f e ↦ (x.tryEdge id l f e).map (·.1)) f

/-- Settles labels and explores their edges, `left` labels at most. -/
def run (x : Exploration K) (w : Watch K σ) (left visited : Nat) (f : Frontier K Q M) (watched : σ) :
    Explored K Q M σ :=
  match f.pop? with
  | none => ⟨f, visited, watched, .ok .exhausted⟩
  | some (id, f) =>
    match left with
    | 0 => ⟨f, visited + 1, watched, .ok .limited⟩
    | left + 1 =>
      let l := f.label id
      let watched := w.note watched id l
      if w.isDone watched then ⟨f, visited + 1, watched, .ok .done⟩
      else match x.expand id l f (x.edges l.node) with
        | .ok f => run x w left (visited + 1) f watched
        | .error error => ⟨f, visited + 1, watched, .error error⟩

def explore (x : Exploration K) (w : Watch K σ) (limit : Nat) (root : Label K)
    (key : Option StateKey) (watched : σ) : Explored K Q M σ :=
  let f : Frontier K Q M := Frontier.empty.addRoot root key
  if w.isDone watched then ⟨f, 0, watched, .ok .done⟩ else x.run w limit 0 f watched

end Exploration

namespace SearchSettings

variable {K : Type} [Scalar K]

def exploration (s : SearchSettings K) (d : Direction) (estimate : NodeId → K) : Exploration K where
  edges node := s.network.edges node d
  allows := s.allows
  price l e := s.weighting.weight e d l.incomingEdge
  extend id _ e cost := .ok (.step e (cost + estimate e.adj) cost id)
  key e := s.mode.key e d

/-- Exploring in a direction at the weights of the time at which each label was reached. -/
def timedExploration (s : SearchSettings K) (d : Direction) : Exploration K where
  edges node := s.network.edges node d
  allows := s.allows
  price l e := s.weighting.weightAt e d l.incomingEdge l.time
  extend id l e cost := do
    let duration ← s.weighting.durationAt e d l.incomingEdge l.time
    let time := match d with
      | .forward => l.time + duration.toInt64
      | .backward => l.time - duration.toInt64
    return (Label.step e cost cost id).withTime time
  key e := s.mode.key e d

end SearchSettings

def Watch.reach {K : Type} (target : NodeId) : Watch K (Option LabelId) where
  note seen id l := if l.node = target then some id else seen
  isDone := Option.isSome

end RoadRouting
