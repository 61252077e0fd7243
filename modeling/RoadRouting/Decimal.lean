namespace RoadRouting.Decimal

/-- The finite number `mantissa * 2 ^ exponent`, negated if `negative`. -/
structure Dyadic where
  negative : Bool
  mantissa : Nat
  exponent : Int
  deriving Repr, DecidableEq

def leastExponent : Int := -1074

def leadingOne : Nat := 1 <<< 52

def Dyadic.ofFloat (x : Float) : Dyadic :=
  let bits := x.toBits.toNat
  let stored := bits / leadingOne % 2048
  let fraction := bits % leadingOne
  let negative := 1 <<< 63 ≤ bits
  if stored = 0 then ⟨negative, fraction, leastExponent⟩
  else ⟨negative, fraction + leadingOne, leastExponent + stored - 1⟩

def scaleByTwo (n : Nat) (e : Int) : Nat × Nat :=
  if 0 ≤ e then (n <<< e.toNat, 1) else (n, 1 <<< (-e).toNat)

/-- The quotient rounded to the nearest integer, a half to the even neighbour. -/
def roundQuotient (num den : Nat) : Nat :=
  let floor := num / den
  let rest := num % den
  if 2 * rest < den then floor
  else if den < 2 * rest then floor + 1
  else floor + floor % 2

def leftPad (width : Nat) (text : String) : String :=
  "".pushn '0' (width - text.length) ++ text

def powerOfTen (e : Nat) : Nat := Nat.pow 10 e

def withPoint (places units : Nat) : String :=
  toString (units / powerOfTen places) ++ "." ++
    leftPad places (toString (units % powerOfTen places))

def fixed (places : Nat) (x : Float) : String :=
  if x.isNaN then "NaN"
  else if x.isInf then if x < 0 then "-inf" else "inf"
  else
    let ⟨negative, mantissa, exponent⟩ := Dyadic.ofFloat x
    let (num, den) := scaleByTwo mantissa exponent
    let units := roundQuotient (num * powerOfTen places) den
    (if negative && units != 0 then "-" else "") ++ withPoint places units

def digitsValue (digits : List Char) : Nat :=
  digits.foldl (fun n c ↦ 10 * n + (c.toNat - '0'.toNat)) 0

/-- The double closest to `n * 10 ^ e`, an infinity if that is beyond all of them. -/
def nearest (n : Nat) (e : Int) : Float :=
  let leading := (toString n).length + e
  if n = 0 ∨ leading < -330 then 0.0
  else if 320 < leading then 1.0 / 0.0
  else if 0 ≤ e then Float.ofScientific n false e.toNat
  else Float.ofScientific n true (-e).toNat

def readNat? (limit : Nat) (text : String) : Option Nat :=
  let digits := match text.toList with
    | '+' :: rest => rest
    | all => all
  if digits.isEmpty || !digits.all Char.isDigit then none
  else
    let n := digitsValue digits
    if n ≤ limit then some n else none

def readExponent? : List Char → Option Int
  | [] => some 0
  | c :: rest =>
    if c ≠ 'e' && c ≠ 'E' then none
    else
      let (negative, digits) := match rest with
        | '-' :: digits => (true, digits)
        | '+' :: digits => (false, digits)
        | digits => (false, digits)
      if digits.isEmpty || !digits.all Char.isDigit then none
      else
        let n : Int := digitsValue digits
        some (if negative then -n else n)

def readUnsigned? (text : List Char) : Option Float :=
  let word := String.ofList (text.map Char.toLower)
  if word = "inf" || word = "infinity" then some (1.0 / 0.0)
  else if word = "nan" then some (0.0 / 0.0)
  else
    let whole := text.takeWhile Char.isDigit
    let rest := text.dropWhile Char.isDigit
    let (fraction, rest) := match rest with
      | '.' :: tail => (tail.takeWhile Char.isDigit, tail.dropWhile Char.isDigit)
      | _ => ([], rest)
    if whole.isEmpty && fraction.isEmpty then none
    else (readExponent? rest).map fun e ↦ nearest (digitsValue (whole ++ fraction)) (e - fraction.length)

/-- The correctly rounded value of a whole text that is a decimal number, an infinity or `nan`. -/
def readFloat? (text : String) : Option Float :=
  match text.toList with
  | '-' :: rest => (readUnsigned? rest).map fun x ↦ -x
  | '+' :: rest => readUnsigned? rest
  | all => readUnsigned? all

structure Shortest where
  digits : Nat
  exponent : Int
  deriving Repr, DecidableEq

inductive Tie where
  | up
  | even
  deriving Repr, DecidableEq

/-- The reals that round to a double are those between `low / den` and `high / den`; the ends belong
to them if the mantissa is even. -/
structure Neighbourhood where
  low : Nat
  value : Nat
  high : Nat
  den : Nat
  closed : Bool

namespace Neighbourhood

/-- The gap below a power of two is half of the gap above it. -/
def ofDyadic (d : Dyadic) : Neighbourhood :=
  let below := if d.mantissa = leadingOne ∧ leastExponent < d.exponent then 1 else 2
  let (low, den) := scaleByTwo (4 * d.mantissa - below) (d.exponent - 2)
  { low
    value := (scaleByTwo (4 * d.mantissa) (d.exponent - 2)).1
    high := (scaleByTwo (4 * d.mantissa + 2) (d.exponent - 2)).1
    den
    closed := d.mantissa % 2 = 0 }

def rescale (n : Neighbourhood) (e : Int) : Neighbourhood :=
  if 0 ≤ e then { n with den := n.den * powerOfTen e.toNat }
  else
    let p := powerOfTen (-e).toNat
    { n with low := n.low * p, value := n.value * p, high := n.high * p }

def contains (n : Neighbourhood) (k : Nat) : Bool :=
  if n.closed then n.low ≤ k * n.den && k * n.den ≤ n.high
  else n.low < k * n.den && k * n.den < n.high

/-- The integer nearest to the value among its two neighbours that lie in the neighbourhood. -/
def integer? (tie : Tie) (n : Neighbourhood) : Option Nat :=
  let k := n.value / n.den
  match n.contains k, n.contains (k + 1) with
  | false, false => none
  | true, false => some k
  | false, true => some (k + 1)
  | true, true =>
    let rest := 2 * (n.value % n.den)
    if rest < n.den then some k
    else if n.den < rest then some (k + 1)
    else match tie with
      | .up => some (k + 1)
      | .even => some (k + k % 2)

def leadingExponent (n : Neighbourhood) : Int :=
  let whole := n.value / n.den
  if whole ≠ 0 then (toString whole).length - 1
  else -(((List.range 400).find? fun j ↦ n.den ≤ n.value * powerOfTen j).getD 0 : Nat)

end Neighbourhood

namespace Shortest

def trim : Nat → Shortest → Shortest
  | 0, s => s
  | steps + 1, s =>
    if s.digits ≠ 0 ∧ s.digits % 10 = 0 then trim steps ⟨s.digits / 10, s.exponent + 1⟩ else s

/-- The first number of digits, from one to seventeen, for which some decimal reads back as the
positive number `d`. -/
def ofDyadic (tie : Tie) (d : Dyadic) : Shortest :=
  let n := Neighbourhood.ofDyadic d
  let top := n.leadingExponent
  let found := (List.range 17).findSome? fun (more : Nat) ↦
    ((n.rescale (top - more)).integer? tie).map fun k ↦ (⟨k, top - more⟩ : Shortest)
  trim 400 (found.getD ⟨0, 0⟩)

def positional (s : Shortest) : String :=
  if 0 ≤ s.exponent then toString (s.digits * powerOfTen s.exponent.toNat)
  else withPoint (-s.exponent).toNat s.digits

end Shortest

def sign (x : Float) : String :=
  if (Dyadic.ofFloat x).negative then "-" else ""

def plain (x : Float) : String :=
  if x.isNaN then "NaN"
  else if x.isInf then sign x ++ "inf"
  else if x == 0 then sign x ++ "0"
  else sign x ++ (Shortest.ofDyadic .up (Dyadic.ofFloat x)).positional

end RoadRouting.Decimal
