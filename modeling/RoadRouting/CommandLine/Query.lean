import RoadRouting.CommandLine.Arguments
import RoadRouting.Planning.Plan
import RoadRouting.RoadFile

namespace RoadRouting

structure Report (K : Type) where
  algorithm : String
  outcome : String
  visited : Nat
  weight : Option K := none
  duration : Option Duration := none
  distance : Option K := none
  nodes : List NodeId := []
  geometry : List (Position K) := []

namespace Report

variable {K : Type} [Scalar K]

def of (algorithm : String) (outcome : Outcome K) (visited : Nat)
    (points : EdgeView K → List (Position K)) : Report K :=
  match outcome.route? with
  | none => { algorithm, outcome := outcome.name, visited }
  | some route =>
    { algorithm
      outcome := outcome.name
      visited
      weight := some route.weight
      duration := some route.duration
      distance := some route.distance
      nodes := route.nodes
      geometry := route.geometry points }

def field? (name : String) (value : Option Json) : List (String × Json) :=
  match value with
  | some j => [(name, j)]
  | none => []

def items? (items : List Json) : Option Json := if items.isEmpty then none else some (.array items)

def toJson (number : K → Json) (r : Report K) : Json :=
  .ofFields <|
    [("algorithm", .ofString r.algorithm), ("outcome", .ofString r.outcome),
      ("visited_nodes", .ofNat r.visited)] ++
    field? "weight" (r.weight.map number) ++
    field? "time_ms" (r.duration.map fun d ↦ .ofNat d.toNat) ++
    field? "distance" (r.distance.map number) ++
    field? "nodes" (items? (r.nodes.map Json.ofNat)) ++
    field? "geometry" (items? (r.geometry.map fun p ↦ .array [number p.x, number p.y]))

end Report

namespace CommandLine

inductive Failure where
  | usage
  | badArgument
  | failed (message : String) (causes : List String)
  deriving Repr, DecidableEq

namespace Failure

def ofError (e : QueryError Float) : Failure := .failed e.message []

end Failure

inductive FileContent where
  | missing
  | unreadable
  | text (content : String)
  deriving Repr, DecidableEq

def FileContent.text? : FileContent → Option String
  | text content => some content
  | _ => none

abbrev Files (m : Type → Type) := String → m FileContent

variable {m : Type → Type} [Monad m]

/-- Reads a document from a file. The failures say what could not be opened or read. -/
def readDocument {α : Type} (files : Files m) (kind name : String) (read? : String → Option α) :
    ExceptT Failure m α := do
  match ← files name with
  | .missing => throw (.failed ("Failed to open " ++ kind ++ " " ++ name) [])
  | content =>
    match content.text?.bind read? with
    | none => throw (.failed ("Failed to parse " ++ kind ++ " " ++ name) [])
    | some document => return document

def number {α : Type} (read : String → Option α) (text : Option String) : Except Failure α :=
  match text.bind read with
  | some x => .ok x
  | none => .error .badArgument

def nodeId (text : String) : Except Failure NodeId :=
  number (Decimal.readNat? RoadFile.largestId) (some text)

/-- The options of the file, overridden by those of the arguments. -/
def options (file : Options) (a : Arguments) : Except Failure Options := do
  let visitLimit ←
    if a.isGiven .maxVisited then
      number (Decimal.readNat? noVisitLimit) (a.value? .maxVisited)
    else pure file.visitLimit
  return { file with
    algorithm := (a.value? .algorithm).getD file.algorithm
    approximation := file.approximation || a.isGiven .approximation
    edgeBased := file.edgeBased || a.isGiven .edgeBased
    visitLimit }

def readOptionsFile (files : Files m) (a : Arguments) : ExceptT Failure m Options := do
  match a.value? .options with
  | none => return {}
  | some name => readDocument files "options" name Options.read?

def readRoads (files : Files m) (name : String) : ExceptT Failure m (LoadedRoads Float) := do
  let file ← readDocument files "graph" name RoadFile.read?
  match file.load greatCircle with
  | .error e => throw (.failed ("Invalid graph " ++ name) [e.message])
  | .ok roads => return roads

def weighting (a : Arguments) (o : Options) (maxSpeed : Float) (turns : TurnTable Float) :
    Weighting Float :=
  let base : Weighting Float :=
    if a.value? .weighting = some "shortest" then .shortest .stored else .fastest .stored maxSpeed
  if o.edgeBased then base.withTurns turns.cost else base

def pin (a : Arguments) (name : OptionName) : Except Failure (Option EdgeId) :=
  if a.isGiven name then (number (Decimal.readNat? RoadFile.largestId) (a.value? name)).map some
  else .ok none

def report (roads : LoadedRoads Float)
    (answer : Except (QueryError Float) (Outcome Float) × Searcher Float) :
    Except Failure (Report Float) :=
  match answer with
  | (.error e, _) => .error (.ofError e)
  | (.ok outcome, searcher) =>
    .ok (.of searcher.algorithm.name outcome searcher.visited roads.graph.network.geometry)

def answerTimed (a : Arguments) (o : Options) (roads : LoadedRoads Float) (w : Weighting Float)
    (source target : NodeId) (time : String) : Except Failure (Report Float) := do
  match Timestamp.read? time with
  | none => .error (.failed ("Invalid time " ++ time) [])
  | some millis =>
    match Searcher.timeDependent?
      { network := roads.graph.network
        weighting := w.withAccess roads.access.allows
        mode := o.mode
        visitLimit := o.visitLimit } with
    | .error e => .error (.ofError e)
    | .ok searcher =>
      let searcher := if a.isGiven .arrival then searcher.flip else searcher
      report roads (searcher.routeAt source target (Int64.ofInt millis))

def answerTimeless (a : Arguments) (o : Options) (roads : LoadedRoads Float) (w : Weighting Float)
    (source target : NodeId) : Except Failure (Report Float) := do
  let searcher := (Plan.ofOptions o).searcher roads.graph.network w
  let firstEdge ← pin a .fromEdge
  let lastEdge ← pin a .toEdge
  report roads (searcher.routeBetween source target firstEdge lastEdge)

/-- Answers the query of the arguments. Faults are looked for in the order of the steps. -/
def answer (files : Files m) (arguments : List String) : ExceptT Failure m (Report Float) := do
  match Arguments.read? arguments with
  | none => throw .usage
  | some a =>
    let file ← readOptionsFile files a
    let o ← liftExcept (options file a)
    let source ← liftExcept (nodeId a.source)
    let target ← liftExcept (nodeId a.target)
    let maxSpeed ← liftExcept (number Decimal.readFloat? (a.value? .maxSpeed))
    let roads ← readRoads files a.graph
    let w := weighting a o maxSpeed roads.turns
    match (a.value? .departure).or (a.value? .arrival) with
    | some time => liftExcept (answerTimed a o roads w source target time)
    | none => liftExcept (answerTimeless a o roads w source target)
where
  liftExcept {α : Type} (x : Except Failure α) : ExceptT Failure m α := ExceptT.mk (pure x)

end CommandLine

end RoadRouting
