import RoadRouting.Search.Exploration
import RoadRouting.Search.Route

namespace RoadRouting

/-- Cuts a search short. It is asked about every label that is settled, and may remember what it was
asked before. -/
structure PruningPolicy (K σ : Type) where
  start : σ
  /-- Whether the edges of the label are left unexplored. -/
  skip : σ → Label K → Direction → Bool × σ := fun memory _ _ ↦ (false, memory)
  stop : σ → Label K → Direction → Bool × σ := fun memory _ _ ↦ (false, memory)

def PruningPolicy.never {K : Type} : PruningPolicy K Unit where
  start := ()

namespace Bidirectional

structure Method (K σ : Type) where
  settings : SearchSettings K
  estimate : Estimate K
  policy : PruningPolicy K σ
  /-- Tolerance for estimates that overshoot: how far the search goes on after it could stop. -/
  offset : K

structure Query where
  source : NodeId
  target : NodeId
  firstEdge : Option EdgeId := none
  lastEdge : Option EdgeId := none
  deriving DecidableEq, Repr

structure Side (K Q M : Type) where
  frontier : Frontier K Q M
  priority : K
  visited : Nat
  isFinished : Bool

/-- The best route found so far: its cost, and the labels of the forward and of the backward search
whose paths make it up. -/
structure Meeting (K : Type) where
  cost : K
  labels : Option (LabelId × LabelId)
  deriving DecidableEq, Repr

structure State (K Q M σ : Type) where
  forward : Side K Q M
  backward : Side K Q M
  meeting : Meeting K
  memory : σ

namespace State

variable {K Q M σ : Type}

def side (st : State K Q M σ) : Direction → Side K Q M
  | .forward => st.forward
  | .backward => st.backward

def withSide (st : State K Q M σ) : Direction → Side K Q M → State K Q M σ
  | .forward, side => { st with forward := side }
  | .backward, side => { st with backward := side }

def visited (st : State K Q M σ) : Nat := st.forward.visited + st.backward.visited

/-- No better route can be found when a search has finished or both together have gone as far as the
best route is long. -/
def isFinished [Scalar K] (st : State K Q M σ) (offset : K) : Bool :=
  st.forward.isFinished || st.backward.isFinished ||
    decide (st.meeting.cost ≤ st.forward.priority + st.backward.priority - offset)

end State

def ordered (own other : LabelId) : Direction → LabelId × LabelId
  | .forward => (own, other)
  | .backward => (other, own)

namespace Method

variable {K Q M σ : Type} [Scalar K] [PriorityQueue Q K] [BestMap M]

/-- Exploring in a direction; a pin only lets edges through that begin with it. -/
def exploration (p : Method K σ) (q : Query) (d : Direction) (pin : Option EdgeId) :
    Exploration K :=
  let free := p.settings.exploration d (p.estimate.balanced q.source q.target d)
  { free with
    allows := fun before e ↦ free.allows before e && pin.all (· = e.firstPart) }

/-- Joins a label with the best label of the other search for the same state. If the states are edges
then both have traveled the edge, which is left to the other one. That it is the same edge needs no
check, see `incomingEdge_eq_of_tryEdge`. -/
def join (p : Method K σ) (d : Direction) (e : EdgeView K) (own other : Frontier K Q M)
    (id : LabelId) (meeting : Meeting K) : Except (QueryError K) (Meeting K) :=
  match other.best? (p.settings.mode.key e d) with
  | none => .ok meeting
  | some otherId => do
    let l := own.label id
    let total := l.cost + (other.label otherId).cost
    let (ownId, cost) ←
      if p.settings.mode.isEdgeBased then do
        pure (l.parent.getD id, total - (← p.settings.weighting.weight e d none))
      else pure (id, total)
    return if cost < meeting.cost then ⟨cost, some (ordered ownId otherId d)⟩ else meeting

def tryEdge (p : Method K σ) (x : Exploration K) (d : Direction) (id : LabelId) (l : Label K)
    (other : Frontier K Q M) (own : Frontier K Q M × Meeting K) (e : EdgeView K) :
    Except (QueryError K) (Frontier K Q M × Meeting K) := do
  match ← x.tryEdge id l own.1 e with
  | (f, none) => return (f, own.2)
  | (f, some nextId) => return (f, ← p.join d e f other nextId own.2)

def expand (p : Method K σ) (x : Exploration K) (d : Direction) (id : LabelId) (l : Label K)
    (other own : Frontier K Q M) (meeting : Meeting K) :
    Except (QueryError K) (Frontier K Q M × Meeting K) :=
  (x.edges l.node).foldlM (p.tryEdge x d id l other) (own, meeting)

/-- Settles the next label in a direction and explores its edges. The state is right after an error
too. A label is missing only when the queue is empty (`Frontier.pop?_eq_none_iff`), so that is how
the direction is found to be done and never an error. -/
def advance (p : Method K σ) (q : Query) (d : Direction) (pin : Option EdgeId)
    (st : State K Q M σ) : State K Q M σ × Except (QueryError K) Unit :=
  let own := st.side d
  match own.frontier.pop? with
  | none => (st.withSide d { own with isFinished := true }, .ok ())
  | some (id, f) =>
    let l := f.label id
    let own : Side K Q M := ⟨f, l.priority, own.visited + 1, false⟩
    let (skips, memory) := p.policy.skip st.memory l d
    if skips then ({ st with memory }.withSide d own, .ok ())
    else
      let (stops, memory) := p.policy.stop memory l d
      let st := { st with memory }
      if stops then (st.withSide d { own with isFinished := true }, .ok ())
      else
        let x := p.exploration q d pin
        match p.expand x d id l (st.side d.opposite).frontier f st.meeting with
        | .ok (f, meeting) => ({ st with meeting }.withSide d { own with frontier := f }, .ok ())
        | .error error => (st.withSide d own, .error error)

def advanceUnfinished (p : Method K σ) (q : Query) (d : Direction) (st : State K Q M σ) :
    State K Q M σ × Except (QueryError K) Unit :=
  if (st.side d).isFinished then (st, .ok ()) else p.advance q d none st

def andThen (first : State K Q M σ × Except (QueryError K) Unit)
    (second : State K Q M σ → State K Q M σ × Except (QueryError K) Unit) :
    State K Q M σ × Except (QueryError K) Unit :=
  match first with
  | (st, .ok ()) => second st
  | failed => failed

def round (p : Method K σ) (q : Query) (st : State K Q M σ) :
    State K Q M σ × Except (QueryError K) Unit :=
  andThen (p.advanceUnfinished q .forward st) (p.advanceUnfinished q .backward)

/-- Rounds until the searches have finished or have visited too much. Every round in which they do
not finish visits a label, so more rounds than the limit are not needed. -/
def rounds (p : Method K σ) (q : Query) : Nat → State K Q M σ →
    State K Q M σ × Except (QueryError K) Unit
  | 0, st => (st, .ok ())
  | left + 1, st =>
    if st.isFinished p.offset || p.settings.isExceeded st.visited then (st, .ok ())
    else andThen (p.round q st) (p.rounds q left)

def startSide (p : Method K σ) (q : Query) (d : Direction) (node : NodeId) : Side K Q M :=
  let priority := p.estimate.balanced q.source q.target d node
  { frontier := Frontier.empty.addRoot (.root node priority) (p.settings.mode.rootKey node)
    priority
    visited := 0
    isFinished := false }

def start (p : Method K σ) (q : Query) : State K Q M σ where
  forward := p.startSide q .forward q.source
  backward := p.startSide q .backward q.target
  meeting := ⟨Scalar.infinity, none⟩
  memory := p.policy.start

def meetAtStart (st : State K Q M σ) : State K Q M σ where
  forward := { st.forward with isFinished := true }
  backward := { st.backward with isFinished := true }
  meeting := ⟨0, some (0, 0)⟩
  memory := st.memory

/-- The whole search. Prescribed edges restrict the first step of each direction. -/
def search (p : Method K σ) (q : Query) : State K Q M σ × Except (QueryError K) Unit :=
  let st : State K Q M σ := p.start q
  if q.source = q.target ∧ q.firstEdge = none ∧ q.lastEdge = none then (meetAtStart st, .ok ())
  else
    andThen (andThen (p.advance q .forward q.firstEdge st) (p.advance q .backward q.lastEdge))
      (p.rounds q (p.settings.visitLimit + 1))

def meetingRoute (p : Method K σ) (q : Query) (st : State K Q M σ) (labels : LabelId × LabelId) :
    Except (QueryError K) (Route K) :=
  Route.ofEdges p.settings.weighting q.source
    (st.forward.frontier.pathTo labels.1 ++ st.backward.frontier.pathFrom labels.2)
    st.meeting.cost

def outcome (p : Method K σ) (q : Query) (st : State K Q M σ) :
    Except (QueryError K) (Outcome K) :=
  if st.isFinished p.offset then
    match st.meeting.labels with
    | some labels =>
      if Scalar.isFinite st.meeting.cost then (p.meetingRoute q st labels).map .found
      else .ok .unreachable
    | none => .ok .unreachable
  else if p.settings.isExceeded st.visited then .ok .visitLimitReached
  else .ok .unreachable

def checkPins (p : Method K σ) (q : Query) : Except (QueryError K) Unit :=
  if (q.firstEdge.isSome || q.lastEdge.isSome) && !p.settings.mode.isEdgeBased then
    .error .edgeRestrictionRequiresEdgeBased
  else .ok ()

variable (Q M) in
def bestRoute (p : Method K σ) (q : Query) : Answer K (Outcome K) :=
  match p.checkPins q, p.settings.checkNodes [q.source, q.target] with
  | .error error, _ => ⟨0, .error error⟩
  | _, .error error => ⟨0, .error error⟩
  | .ok (), .ok () =>
    let (st, ended) := p.search (Q := Q) (M := M) q
    ⟨st.visited, do ended; p.outcome q st⟩

end Method

end Bidirectional

end RoadRouting
