import RoadRouting.Decimal
import RoadRouting.Text

namespace RoadRouting

inductive Weekday where
  | monday
  | tuesday
  | wednesday
  | thursday
  | friday
  | saturday
  | sunday
  deriving DecidableEq, Repr, Inhabited

namespace Weekday

def all : List Weekday := [monday, tuesday, wednesday, thursday, friday, saturday, sunday]

def yesterday : Weekday → Weekday
  | monday => sunday
  | tuesday => monday
  | wednesday => tuesday
  | thursday => wednesday
  | friday => thursday
  | saturday => friday
  | sunday => saturday

def fullName : Weekday → String
  | monday => "Monday"
  | tuesday => "Tuesday"
  | wednesday => "Wednesday"
  | thursday => "Thursday"
  | friday => "Friday"
  | saturday => "Saturday"
  | sunday => "Sunday"

def shortName (d : Weekday) : String := (d.fullName.take 3).toString

def read? (text : String) : Option Weekday :=
  let word := text.toLower
  all.find? fun d ↦ word = d.shortName.toLower || word = d.fullName.toLower

def ofDay (day : Int) : Weekday :=
  match (day % 7).toNat with
  | 0 => thursday
  | 1 => friday
  | 2 => saturday
  | 3 => sunday
  | 4 => monday
  | 5 => tuesday
  | _ => wednesday

theorem ofDay_pred (day : Int) : ofDay (day - 1) = (ofDay day).yesterday := by
  have : day % 7 = 0 ∨ day % 7 = 1 ∨ day % 7 = 2 ∨ day % 7 = 3 ∨ day % 7 = 4 ∨ day % 7 = 5 ∨
      day % 7 = 6 := by omega
  unfold ofDay
  rcases this with h | h | h | h | h | h | h
  · rw [show (day - 1) % 7 = 6 by omega, h]; rfl
  · rw [show (day - 1) % 7 = 0 by omega, h]; rfl
  · rw [show (day - 1) % 7 = 1 by omega, h]; rfl
  · rw [show (day - 1) % 7 = 2 by omega, h]; rfl
  · rw [show (day - 1) % 7 = 3 by omega, h]; rfl
  · rw [show (day - 1) % 7 = 4 by omega, h]; rfl
  · rw [show (day - 1) % 7 = 5 by omega, h]; rfl

end Weekday

/-- A second of the day and the nanoseconds since it began. A leap second is the last second of its
minute with a thousand million nanoseconds or more. -/
structure ClockTime where
  second : Nat
  nano : Nat
  deriving DecidableEq, Repr, Inhabited

namespace ClockTime

instance : LT ClockTime := ⟨fun s t ↦ s.second < t.second ∨ s.second = t.second ∧ s.nano < t.nano⟩

instance : LE ClockTime := ⟨fun s t ↦ s.second < t.second ∨ s.second = t.second ∧ s.nano ≤ t.nano⟩

instance (s t : ClockTime) : Decidable (s < t) :=
  inferInstanceAs (Decidable (s.second < t.second ∨ s.second = t.second ∧ s.nano < t.nano))

instance (s t : ClockTime) : Decidable (s ≤ t) :=
  inferInstanceAs (Decidable (s.second < t.second ∨ s.second = t.second ∧ s.nano ≤ t.nano))

def nanosPerSecond : Nat := 1000000000

def of? (hour minute second nano : Nat) : Option ClockTime :=
  if 24 ≤ hour ∨ 60 ≤ minute ∨ 61 ≤ second ∨ nanosPerSecond ≤ nano then none
  else if second = 60 then some ⟨3600 * hour + 60 * minute + 59, nanosPerSecond + nano⟩
  else some ⟨3600 * hour + 60 * minute + second, nano⟩

def twoDigits (n : Nat) : String := Decimal.leftPad 2 (toString n)

def fractionText (nano : Nat) : String :=
  if nano = 0 then ""
  else if nano % 1000000 = 0 then "." ++ Decimal.leftPad 3 (toString (nano / 1000000))
  else if nano % 1000 = 0 then "." ++ Decimal.leftPad 6 (toString (nano / 1000))
  else "." ++ Decimal.leftPad 9 (toString nano)

def toString (t : ClockTime) : String :=
  let leap := nanosPerSecond ≤ t.nano
  let second := t.second % 60 + if leap then 1 else 0
  let nano := if leap then t.nano - nanosPerSecond else t.nano
  twoDigits (t.second / 3600) ++ ":" ++ twoDigits (t.second / 60 % 60) ++ ":" ++ twoDigits second ++
    fractionText nano

def readField? (least most : Nat) (text : List Char) : Option (Nat × List Char) :=
  let digits := (text.take most).takeWhile Char.isDigit
  if digits.length < least then none
  else some (Decimal.digitsValue digits, text.drop digits.length)

def readFraction? (text : List Char) : Option (Nat × List Char) := do
  let (value, rest) ← readField? 1 9 text
  let count := text.length - rest.length
  return (value * Decimal.powerOfTen (9 - count), rest.dropWhile Char.isDigit)

def readOptionalFraction? : List Char → Option (Nat × List Char)
  | '.' :: rest => readFraction? rest
  | rest => some (0, rest)

def readColon? : List Char → Option (List Char)
  | ':' :: rest => some rest
  | _ => none

def readSeconds? (text : List Char) : Option (Nat × Nat × List Char) := do
  let rest ← readColon? (Text.skipBlanks text)
  let (second, rest) ← readField? 1 2 (Text.skipBlanks rest)
  let (nano, rest) ← readOptionalFraction? rest
  return (second, nano, rest)

def read? (text : String) : Option ClockTime := do
  let (hour, rest) ← readField? 1 2 (Text.skipBlanks text.toList)
  let rest ← readColon? (Text.skipBlanks rest)
  let (minute, rest) ← readField? 1 2 (Text.skipBlanks rest)
  let (second, nano, rest) := (readSeconds? rest).getD (0, 0, rest)
  if !(Text.skipBlanks rest).isEmpty then none
  of? hour minute second nano

end ClockTime

/-- Milliseconds since the beginning of 1970, in universal time. -/
abbrev Instant := Int64

abbrev Duration := UInt64

/-- A day, counted from the first of January 1970, and a time of that day. -/
structure Moment where
  day : Int
  clock : ClockTime
  deriving DecidableEq, Repr

namespace Moment

def weekday (m : Moment) : Weekday := .ofDay m.day

def hour (m : Moment) : Nat := m.clock.second / 3600

def millisPerDay : Int := 86400000

def ofMillis (millis : Int) : Moment :=
  let ofDay := (millis % millisPerDay).toNat
  ⟨millis / millisPerDay, ⟨ofDay / 1000, ofDay % 1000 * 1000000⟩⟩

def firstMillis : Int := -8334601228800000

def lastMillis : Int := 8210266876799999

/-- The calendar covers the years from -262143 to 262142; other instants are no moments. -/
def ofInstant? (t : Instant) : Option Moment :=
  let millis := t.toInt
  if firstMillis ≤ millis ∧ millis ≤ lastMillis then some (ofMillis millis) else none

end Moment

namespace Timestamp

def isLeapYear (year : Nat) : Bool := year % 4 = 0 && (year % 100 ≠ 0 || year % 400 = 0)

def daysInMonth (year month : Nat) : Nat :=
  if month = 2 then if isLeapYear year then 29 else 28
  else if month = 4 ∨ month = 6 ∨ month = 9 ∨ month = 11 then 30
  else 31

/-- Days since the beginning of 1970. The year is counted from March, so that a leap day is its
last day. -/
def dayNumber (year month day : Nat) : Int :=
  let y : Int := if month ≤ 2 then year - 1 else year
  let m : Int := if month ≤ 2 then month + 9 else month - 3
  365 * y + y / 4 - y / 100 + y / 400 + (153 * m + 2) / 5 + day - 1 - 719468

def readChar? (c : Char) : List Char → Option (List Char)
  | d :: rest => if d = c then some rest else none
  | [] => none

def readDate? (text : List Char) : Option (Int × List Char) := do
  let (year, rest) ← ClockTime.readField? 4 4 text
  let (month, rest) ← ClockTime.readField? 2 2 (← readChar? '-' rest)
  let (day, rest) ← ClockTime.readField? 2 2 (← readChar? '-' rest)
  if month = 0 || 12 < month || day = 0 || daysInMonth year month < day then none
  return (dayNumber year month day, rest)

def readClock? (text : List Char) : Option (ClockTime × List Char) := do
  let (hour, rest) ← ClockTime.readField? 2 2 text
  let (minute, rest) ← ClockTime.readField? 2 2 (← readChar? ':' rest)
  let (second, rest) ← ClockTime.readField? 2 2 (← readChar? ':' rest)
  let (nano, rest) ← ClockTime.readOptionalFraction? rest
  return (← ClockTime.of? hour minute second nano, rest)

def minusSign : Char := '\u2212'

def readOffset? : List Char → Option (Int × List Char)
  | c :: rest =>
    if c = 'Z' || c = 'z' then some (0, rest)
    else if c = '+' || c = '-' || c = minusSign then do
      let (hours, rest) ← ClockTime.readField? 2 2 rest
      let (minutes, rest) ← ClockTime.readField? 2 2 (← readChar? ':' rest)
      if 60 ≤ minutes || 24 ≤ hours then none
      let size : Int := 60 * hours + minutes
      return (if c = '+' then size else -size, rest)
    else none
  | [] => none

/-- Milliseconds since the beginning of 1970 of a whole text; parts of a millisecond are dropped. -/
def read? (text : String) : Option Int := do
  let (day, rest) ← readDate? text.toList
  let rest ← match rest with
    | c :: rest => if c = 'T' || c = 't' || c = ' ' then some rest else none
    | [] => none
  let (clock, rest) ← readClock? rest
  let (offset, rest) ← readOffset? rest
  if !rest.isEmpty then none
  return Moment.millisPerDay * day + 1000 * clock.second + clock.nano / 1000000 - 60000 * offset

end Timestamp

end RoadRouting
