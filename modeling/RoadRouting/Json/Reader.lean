import RoadRouting.Json

namespace RoadRouting.Json

def isSpace (c : Char) : Bool := c = ' ' || c = '\t' || c = '\n' || c = '\r'

def skipSpace (text : List Char) : List Char := text.dropWhile isSpace

/-- A piece of a text: a character, or a number given by an escape. -/
inductive Piece where
  | char (c : Char)
  | unit (code : Nat)

def hexDigit? (c : Char) : Option Nat :=
  if c.isDigit then some (c.toNat - '0'.toNat)
  else if 'a' ≤ c ∧ c ≤ 'f' then some (c.toNat - 'a'.toNat + 10)
  else if 'A' ≤ c ∧ c ≤ 'F' then some (c.toNat - 'A'.toNat + 10)
  else none

def hexUnit? (a b c d : Char) : Option Nat := do
  return (((← hexDigit? a) * 16 + (← hexDigit? b)) * 16 + (← hexDigit? c)) * 16 + (← hexDigit? d)

def simpleEscape? : Char → Option Char
  | '"' => some '"'
  | '\\' => some '\\'
  | '/' => some '/'
  | 'b' => some '\x08'
  | 'f' => some '\x0c'
  | 'n' => some '\n'
  | 'r' => some '\r'
  | 't' => some '\t'
  | _ => none

def isHighHalf (code : Nat) : Bool := 0xd800 ≤ code && code < 0xdc00

def isLowHalf (code : Nat) : Bool := 0xdc00 ≤ code && code < 0xe000

/-- Joins a high half with the low half right after it; a half alone names no character. -/
def joinPieces : List Piece → Option (List Char)
  | [] => some []
  | .char c :: rest => (joinPieces rest).map (c :: ·)
  | .unit high :: .unit low :: rest =>
    if isHighHalf high then
      if isLowHalf low then
        let code := 0x10000 + (high - 0xd800) * 0x400 + (low - 0xdc00)
        (joinPieces rest).map (Char.ofNat code :: ·)
      else none
    else if isLowHalf high then none
    else (joinPieces (.unit low :: rest)).map (Char.ofNat high :: ·)
  | .unit code :: rest =>
    if isHighHalf code || isLowHalf code then none
    else (joinPieces rest).map (Char.ofNat code :: ·)

def scanText (done : List Piece) : List Char → Option (List Piece × List Char)
  | '"' :: rest => some (done.reverse, rest)
  | '\\' :: 'u' :: a :: b :: c :: d :: rest => do
    let code ← hexUnit? a b c d
    scanText (.unit code :: done) rest
  | '\\' :: c :: rest => do
    let e ← simpleEscape? c
    scanText (.char e :: done) rest
  | c :: rest => if c < ' ' then none else scanText (.char c :: done) rest
  | [] => none

def readText? (input : List Char) : Option (Option String × List Char) :=
  (scanText [] input).map fun (pieces, rest) ↦ ((joinPieces pieces).map String.ofList, rest)

def splitDigits (input : List Char) : List Char × List Char :=
  (input.takeWhile Char.isDigit, input.dropWhile Char.isDigit)

def readDigits? (input : List Char) : Option (List Char × List Char) :=
  let (digits, rest) := splitDigits input
  if digits.isEmpty then none else some (digits, rest)

def readExponent? : List Char → Option (Option (Bool × List Char) × List Char)
  | c :: rest =>
    if c = 'e' || c = 'E' then
      let (negative, rest) := match rest with
        | '-' :: rest => (true, rest)
        | '+' :: rest => (false, rest)
        | rest => (false, rest)
      (readDigits? rest).map fun (digits, rest) ↦ (some (negative, digits), rest)
    else some (none, c :: rest)
  | [] => some (none, [])

def readNumber? (input : List Char) : Option (Number × List Char) := do
  let (negative, rest) := match input with
    | '-' :: rest => (true, rest)
    | rest => (false, rest)
  let (whole, rest) ← readDigits? rest
  if whole.head? = some '0' && whole.length ≠ 1 then none
  let (fraction, rest) ← match rest with
    | '.' :: rest => readDigits? rest
    | rest => some ([], rest)
  let (exponent, rest) ← readExponent? rest
  return (⟨negative, whole, fraction, exponent⟩, rest)

mutual

/-- A document at the start of the input, and what follows it. Every two steps use up a character. -/
def readValue? : Nat → List Char → Option (Json × List Char)
  | 0, _ => none
  | steps + 1, input =>
    match skipSpace input with
    | '"' :: rest => (readText? rest).map fun (value, rest) ↦ (text value, rest)
    | '[' :: rest =>
      match skipSpace rest with
      | ']' :: rest => some (array [], rest)
      | rest => readItems? steps [] rest
    | '\x7b' :: rest =>
      match skipSpace rest with
      | '\x7d' :: rest => some (object [], rest)
      | rest => readFields? steps [] rest
    | 'n' :: 'u' :: 'l' :: 'l' :: rest => some (null, rest)
    | 't' :: 'r' :: 'u' :: 'e' :: rest => some (bool true, rest)
    | 'f' :: 'a' :: 'l' :: 's' :: 'e' :: rest => some (bool false, rest)
    | rest => (readNumber? rest).map fun (value, rest) ↦ (number value, rest)

def readItems? : Nat → List Json → List Char → Option (Json × List Char)
  | 0, _, _ => none
  | steps + 1, done, input =>
    match readValue? steps input with
    | none => none
    | some (item, rest) =>
      match skipSpace rest with
      | ',' :: rest => readItems? steps (item :: done) rest
      | ']' :: rest => some (array (item :: done).reverse, rest)
      | _ => none

def readFields? :
    Nat → List (Option String × Json) → List Char → Option (Json × List Char)
  | 0, _, _ => none
  | steps + 1, done, input =>
    match skipSpace input with
    | '"' :: rest =>
      match readText? rest with
      | none => none
      | some (name, rest) =>
        match skipSpace rest with
        | ':' :: rest =>
          match readValue? steps rest with
          | none => none
          | some (value, rest) =>
            match skipSpace rest with
            | ',' :: rest => readFields? steps ((name, value) :: done) rest
            | '\x7d' :: rest => some (object ((name, value) :: done).reverse, rest)
            | _ => none
        | _ => none
    | _ => none

end

def parse? (input : String) : Option Json :=
  let chars := input.toList
  match readValue? (2 * chars.length + 1) chars with
  | some (value, rest) => if (skipSpace rest).isEmpty then some value else none
  | none => none

/-- When a field may be missing: never, from an object only (it is then `null`), or always. -/
inductive Presence where
  | required
  | nullable
  | defaulted
  deriving DecidableEq, Repr

structure Field where
  name : String
  presence : Presence
  deriving DecidableEq, Repr

structure Record where
  values : List (String × Json)

/-- Fields in their order. Only defaulted ones may be left out at the end. -/
def recordOfItems? : List Field → List Json → Option (List (String × Json))
  | [], [] => some []
  | [], _ :: _ => none
  | f :: fields, [] => if f.presence = .defaulted then recordOfItems? fields [] else none
  | f :: fields, item :: items => (recordOfItems? fields items).map ((f.name, item) :: ·)

def knownFields? (fields : List Field) :
    List (Option String × Json) → Option (List (String × Json))
  | [] => some []
  | (none, _) :: _ => none
  | (some name, value) :: rest => do
    let known ← knownFields? fields rest
    if fields.all (·.name ≠ name) then return known
    else if known.any (·.1 = name) then none
    else return (name, value) :: known

def record? (fields : List Field) : Json → Option Record
  | array items => (recordOfItems? fields items).map Record.mk
  | object entries => do
    let known ← knownFields? fields entries
    if fields.all fun f ↦ f.presence ≠ .required || known.any (·.1 = f.name) then
      return ⟨known⟩
    else none
  | _ => none

def Record.getD {α : Type} (r : Record) (name : String) (read : Json → Option α) (default : α) :
    Option α :=
  match r.values.lookup name with
  | some value => read value
  | none => some default

def Record.get? {α : Type} (r : Record) (name : String) (read : Json → Option α) : Option α :=
  (r.values.lookup name).bind read

def bool? : Json → Option Bool
  | bool value => some value
  | _ => none

def string? : Json → Option String
  | text value => value
  | _ => none

def nat? (limit : Nat) : Json → Option Nat
  | number value => value.nat? limit
  | _ => none

def float? : Json → Option Float
  | number value => value.float?
  | _ => none

def list? {α : Type} (read : Json → Option α) : Json → Option (List α)
  | array items => items.mapM read
  | _ => none

def option? {α : Type} (read : Json → Option α) : Json → Option (Option α)
  | null => some none
  | value => (read value).map some

end RoadRouting.Json
