import RoadRouting.Decimal

namespace RoadRouting

/-- A number as it is written. An empty `fraction` means that there is no point. -/
structure Json.Number where
  negative : Bool
  whole : List Char
  fraction : List Char
  exponent : Option (Bool × List Char)
  deriving Repr, DecidableEq

/-- A text is `none` if one of its escapes names no character. Such a text can be skipped over, but
never read. -/
inductive Json where
  | null
  | bool (value : Bool)
  | number (value : Json.Number)
  | text (value : Option String)
  | array (items : List Json)
  | object (fields : List (Option String × Json))
  deriving Repr, Inhabited

namespace Json

def ofString (s : String) : Json := text (some s)

def ofNat (n : Nat) : Json := number ⟨false, (toString n).toList, [], none⟩

def ofInt (n : Int) : Json := number ⟨n < 0, (toString n.natAbs).toList, [], none⟩

def ofFields (fields : List (String × Json)) : Json :=
  object (fields.map fun (name, value) ↦ (some name, value))

end Json

namespace Json.Number

def largestWord : Nat := UInt64.size - 1

def isInteger (n : Number) : Bool := n.fraction.isEmpty && n.exponent.isNone

def nat? (limit : Nat) (n : Number) : Option Nat :=
  let value := Decimal.digitsValue n.whole
  if n.isInteger && !n.negative && value ≤ limit then some value else none

def int? (n : Number) : Option Int :=
  let size : Int := Decimal.digitsValue n.whole
  let value := if n.negative then -size else size
  if n.isInteger && (value ≠ 0 || !n.negative) && Int64.minValue.toInt ≤ value &&
      value ≤ Int64.maxValue.toInt then some value
  else none

def appendDigits (word : Nat) : List Char → Nat × List Char
  | [] => (word, [])
  | c :: rest =>
    let longer := 10 * word + (c.toNat - '0'.toNat)
    if longer ≤ largestWord then appendDigits longer rest else (word, c :: rest)

def significand (n : Number) : Nat × Int :=
  let (word, dropped) := appendDigits 0 n.whole
  let (word', left) := appendDigits word n.fraction
  (word', dropped.length - (n.fraction.length - left.length : Nat))

def largestTableExponent : Nat := 308

def powerOfTen (e : Nat) : Float := Float.ofScientific 1 false e

/-- Scales by `10 ^ e` in steps that a table of powers covers; refuses what becomes infinite. -/
def scale : Nat → Float → Int → Option Float
  | 0, _, _ => none
  | steps + 1, x, e =>
    if e.natAbs ≤ largestTableExponent then
      if 0 ≤ e then
        let y := x * powerOfTen e.natAbs
        if y.isInf then none else some y
      else some (x / powerOfTen e.natAbs)
    else if x == 0 then some x
    else if 0 ≤ e then none
    else scale steps (x / powerOfTen largestTableExponent) (e + largestTableExponent)

def largestExponent : Int := Int32.maxValue.toInt

def clampExponent (e : Int) : Int := max Int32.minValue.toInt (min largestExponent e)

def magnitude? (n : Number) : Option Float :=
  let (word, start) := n.significand
  let (negative, digits) := n.exponent.getD (false, [])
  let e : Int := Decimal.digitsValue digits
  if largestExponent < e then
    if word = 0 || negative then some 0 else none
  else
    let total := clampExponent (if negative then start - e else start + e)
    scale (total.natAbs / largestTableExponent + 1) (Float.ofNat word) total

def float? (n : Number) : Option Float :=
  (magnitude? n).map fun x ↦ if n.negative then -x else x

/-- The shortest number that reads back: positional with at least one place for leading exponents
from -5 to 15, else one digit before the point and an exponent. -/
def ofShortest (negative : Bool) (s : Decimal.Shortest) : Number :=
  let digits := (toString s.digits).toList
  let leading := s.exponent + digits.length - 1
  if -5 ≤ leading ∧ leading ≤ 15 then
    if 0 ≤ s.exponent then ⟨negative, digits ++ List.replicate s.exponent.toNat '0', ['0'], none⟩
    else
      let places := (-s.exponent).toNat
      let padded := List.replicate (places + 1 - digits.length) '0' ++ digits
      ⟨negative, padded.take (padded.length - places), padded.drop (padded.length - places), none⟩
  else
    ⟨negative, digits.take 1, digits.drop 1, some (leading < 0, (toString leading.natAbs).toList)⟩

end Json.Number

namespace Json

def ofFloat (x : Float) : Json :=
  let d := Decimal.Dyadic.ofFloat x
  if x.isNaN || x.isInf then null
  else if x == 0 then number ⟨d.negative, ['0'], ['0'], none⟩
  else number (Number.ofShortest d.negative (Decimal.Shortest.ofDyadic .even d))

def Number.toString (n : Number) : String :=
  let sign := if n.negative then "-" else ""
  let fraction := if n.fraction.isEmpty then "" else "." ++ String.ofList n.fraction
  let exponent := match n.exponent with
    | none => ""
    | some (negative, digits) => "e" ++ (if negative then "-" else "") ++ String.ofList digits
  sign ++ String.ofList n.whole ++ fraction ++ exponent

def hexChar (n : Nat) : Char :=
  if n < 10 then Char.ofNat ('0'.toNat + n) else Char.ofNat ('a'.toNat + n - 10)

def escape (c : Char) : String :=
  if c = '"' then "\\\""
  else if c = '\\' then "\\\\"
  else if c = '\n' then "\\n"
  else if c = '\r' then "\\r"
  else if c = '\t' then "\\t"
  else if c = '\x08' then "\\b"
  else if c = '\x0c' then "\\f"
  else if c < ' ' then
    String.ofList ['\\', 'u', '0', '0', hexChar (c.toNat / 16), hexChar (c.toNat % 16)]
  else c.toString

def quote (s : String) : String := "\"" ++ String.join (s.toList.map escape) ++ "\""

def quoteName (name : Option String) : String := quote (name.getD "")

mutual

def compact : Json → String
  | null => "null"
  | bool value => if value then "true" else "false"
  | number value => value.toString
  | text value => quoteName value
  | array items => "[" ++ ",".intercalate (compactItems items) ++ "]"
  | object fields => "\x7b" ++ ",".intercalate (compactFields fields) ++ "\x7d"

def compactItems : List Json → List String
  | [] => []
  | item :: rest => compact item :: compactItems rest

def compactFields : List (Option String × Json) → List String
  | [] => []
  | (name, value) :: rest => (quoteName name ++ ":" ++ compact value) :: compactFields rest

end

def lineBreak (depth : Nat) : String := "\n" ++ "".pushn ' ' (2 * depth)

def block (depth : Nat) (opening closing : String) (lines : List String) : String :=
  if lines.isEmpty then opening ++ closing
  else
    opening ++ lineBreak (depth + 1) ++ ("," ++ lineBreak (depth + 1)).intercalate lines ++
      lineBreak depth ++ closing

mutual

/-- The document with one item or field per line, indented by two spaces. -/
def indented (depth : Nat) : Json → String
  | array items => block depth "[" "]" (indentedItems (depth + 1) items)
  | object fields => block depth "\x7b" "\x7d" (indentedFields (depth + 1) fields)
  | null => "null"
  | bool value => if value then "true" else "false"
  | number value => value.toString
  | text value => quoteName value

def indentedItems (depth : Nat) : List Json → List String
  | [] => []
  | item :: rest => indented depth item :: indentedItems depth rest

def indentedFields (depth : Nat) : List (Option String × Json) → List String
  | [] => []
  | (name, value) :: rest =>
    (quoteName name ++ ": " ++ indented depth value) :: indentedFields depth rest

end

end Json

end RoadRouting
