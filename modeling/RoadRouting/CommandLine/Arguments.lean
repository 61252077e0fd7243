namespace RoadRouting.CommandLine

inductive OptionName where
  | options
  | algorithm
  | approximation
  | edgeBased
  | maxVisited
  | weighting
  | maxSpeed
  | departure
  | arrival
  | fromEdge
  | toEdge
  deriving DecidableEq, Repr

namespace OptionName

def all : List OptionName := [
  options, algorithm, approximation, edgeBased, maxVisited, weighting, maxSpeed, departure, arrival,
  fromEdge, toEdge]

def long : OptionName → String
  | options => "options"
  | algorithm => "algorithm"
  | approximation => "approximation"
  | edgeBased => "edge-based"
  | maxVisited => "max-visited"
  | weighting => "weighting"
  | maxSpeed => "max-speed"
  | departure => "departure"
  | arrival => "arrival"
  | fromEdge => "from-edge"
  | toEdge => "to-edge"

def ofLong? (name : String) : Option OptionName := all.find? fun o ↦ o.long = name

def ofShort? (c : Char) : Option OptionName := if c = 'a' then some algorithm else none

def takesValue : OptionName → Bool
  | approximation => false
  | edgeBased => false
  | _ => true

def default? : OptionName → Option String
  | weighting => some "fastest"
  | maxSpeed => some "130"
  | _ => none

def conflicts : OptionName → List OptionName
  | departure => [arrival]
  | fromEdge => [departure, arrival]
  | toEdge => [departure, arrival]
  | _ => []

end OptionName

structure OptionUse where
  name : OptionName
  value : Option String
  deriving Repr, DecidableEq

structure Reading where
  positions : List String := []
  uses : List OptionUse := []
  pending : Option OptionName := none
  onlyPositions : Bool := false

namespace Reading

/-- The value that is attached to an option: equals signs in front of it are dropped, but a value that
has nothing else keeps them all. -/
def attachedValue (text : String) : String :=
  let rest := text.toList.dropWhile (· = '=')
  if rest.isEmpty then text else String.ofList rest

/-- Notes an option. Without a value it waits for the next argument, if it takes one at all. -/
def use (r : Reading) (name : OptionName) (value : Option String) : Reading :=
  if !name.takesValue then { r with uses := ⟨name, none⟩ :: r.uses, pending := none }
  else
    match value with
    | some v =>
      { r with uses := ⟨name, some (attachedValue v)⟩ :: r.uses, pending := none }
    | none => { r with uses := ⟨name, none⟩ :: r.uses, pending := some name }

def supply (r : Reading) (value : String) : Reading :=
  match r.uses with
  | last :: earlier => { r with uses := { last with value } :: earlier, pending := none }
  | [] => r

def readLong? (r : Reading) (argument : List Char) : Option Reading :=
  let text := argument.dropWhile (· = '-')
  let name := text.takeWhile (· ≠ '=')
  let value := match text.dropWhile (· ≠ '=') with
    | _ :: value => some (String.ofList value)
    | [] => none
  (OptionName.ofLong? (String.ofList name)).map fun o ↦ r.use o value

def readShort? (r : Reading) (argument : List Char) : Option Reading :=
  match argument with
  | letter :: rest =>
    (OptionName.ofShort? letter).map fun o ↦
      r.use o (if rest.isEmpty then none else some (String.ofList rest))
  | [] => none

/-- A hyphen alone is a value and no option. Two hyphens alone never are a position, also after
others. -/
def next? (r : Reading) (argument : String) : Option Reading :=
  let position := some { r with positions := argument :: r.positions }
  if argument = "--" then some { r with onlyPositions := true }
  else if r.onlyPositions then position
  else match argument.toList with
    | '-' :: '-' :: rest => r.readLong? rest
    | '-' :: c :: rest => r.readShort? (c :: rest)
    | _ => if r.pending.isSome then some (r.supply argument) else position

end Reading

structure Arguments where
  graph : String
  source : String
  target : String
  uses : List OptionUse
  deriving Repr, DecidableEq

namespace Arguments

def isGiven (a : Arguments) (name : OptionName) : Bool := a.uses.any (·.name = name)

def value? (a : Arguments) (name : OptionName) : Option String :=
  ((a.uses.find? (·.name = name)).bind (·.value)).or name.default?

/-- No option is given twice or together with one that it conflicts with, and the weighting is known.
An option at the very end does not lack its value. -/
def isAcceptable (a : Arguments) (pending : Option OptionName) : Bool :=
  pending.all (fun o ↦ o.default?.isSome) &&
  (OptionName.all.all fun o ↦ (a.uses.filter (·.name = o)).length ≤ 1) &&
  (OptionName.all.all fun o ↦ !(a.isGiven o && o.conflicts.any a.isGiven)) &&
  (a.value? .weighting).all fun w ↦ w = "fastest" || w = "shortest"

def read? (arguments : List String) : Option Arguments := do
  let r ← arguments.foldlM Reading.next? {}
  match r.positions.reverse with
  | [graph, source, target] =>
    let a : Arguments := ⟨graph, source, target, r.uses⟩
    if a.isAcceptable r.pending then some a else none
  | _ => none

end Arguments

end RoadRouting.CommandLine
