import RoadRouting.Calendar
import RoadRouting.Graph.Edge
import RoadRouting.Json.Reader
import Std.Data.TreeMap

namespace RoadRouting

/-- From `start` until just before `finish`, in universal time. With `finish` before `start` the
window goes on after midnight and still belongs to the day on which it began. -/
structure Window where
  /-- The days on which the window begins; none means every day. -/
  days : List Weekday
  start : ClockTime
  finish : ClockTime
  deriving DecidableEq, Repr

namespace Window

def beginsOn (w : Window) (d : Weekday) : Bool := w.days.isEmpty || w.days.contains d

def contains (w : Window) (m : Moment) : Bool :=
  if w.start ≤ w.finish then w.beginsOn m.weekday && w.start ≤ m.clock && m.clock < w.finish
  else
    w.start ≤ m.clock && w.beginsOn m.weekday ||
      m.clock < w.finish && w.beginsOn m.weekday.yesterday

def fields : List Json.Field := [⟨"days", .defaulted⟩, ⟨"from", .required⟩, ⟨"to", .required⟩]

def clockTime? (j : Json) : Option ClockTime := j.string?.bind ClockTime.read?

def weekday? (j : Json) : Option Weekday := j.string?.bind Weekday.read?

def ofJson? (j : Json) : Option Window := do
  let r ← j.record? fields
  return {
    days := ← r.getD "days" (Json.list? weekday?) []
    start := ← r.get? "from" clockTime?
    finish := ← r.get? "to" clockTime? }

def toJson (w : Window) : Json :=
  .ofFields [
    ("days", .array (w.days.map fun d ↦ .ofString d.shortName)),
    ("from", .ofString w.start.toString),
    ("to", .ofString w.finish.toString)]

end Window

abbrev AccessPolicy (K : Type) := EdgeView K → Instant → Bool

/-- The rule of one edge: inside of any window the access is the opposite of the default. -/
structure AccessRule where
  openByDefault : Bool
  windows : List Window
  deriving DecidableEq, Repr

namespace AccessRule

/-- An instant that is no moment of the calendar lies in no window. -/
def isInside (r : AccessRule) (t : Instant) : Bool :=
  match Moment.ofInstant? t with
  | some m => r.windows.any fun w ↦ w.contains m
  | none => false

def isOpen (r : AccessRule) (t : Instant) : Bool := r.openByDefault != r.isInside t

end AccessRule

structure AccessRules where
  rules : Std.TreeMap EdgeId AccessRule

namespace AccessRules

def empty : AccessRules := ⟨∅⟩

/-- Adds a window to the rule of an edge, whose default becomes `openByDefault`. -/
def add (a : AccessRules) (edge : EdgeId) (openByDefault : Bool) (w : Window) : AccessRules :=
  let earlier := match a.rules[edge]? with
    | some rule => rule.windows
    | none => []
  ⟨a.rules.insert edge ⟨openByDefault, earlier ++ [w]⟩⟩

def closeDuring (a : AccessRules) (edge : EdgeId) (w : Window) : AccessRules := a.add edge true w

def openOnlyDuring (a : AccessRules) (edge : EdgeId) (w : Window) : AccessRules := a.add edge false w

def size (a : AccessRules) : Nat := a.rules.size

def isEmpty (a : AccessRules) : Bool := a.rules.isEmpty

def allows {K : Type} (a : AccessRules) : AccessPolicy K := fun e t ↦
  match a.rules[e.edge]? with
  | some rule => rule.isOpen t
  | none => true

end AccessRules

end RoadRouting
