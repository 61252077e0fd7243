namespace RoadRouting

/-- Numbers with infinities and a "not a number" that compares false with everything. -/
class Scalar (K : Type) extends
    Zero K, Add K, Sub K, Mul K, Div K, LT K, LE K, BEq K, OfScientific K where
  infinity : K
  isNaN : K → Bool
  isInfinite : K → Bool
  /-- Drops the fraction; what is below zero or no number becomes 0, what is too large the largest
  value. -/
  truncate : K → UInt64
  decidableLT : DecidableLT K
  decidableLE : DecidableLE K

namespace Scalar

instance {K : Type} [Scalar K] : DecidableLT K := Scalar.decidableLT

instance {K : Type} [Scalar K] : DecidableLE K := Scalar.decidableLE

instance : Scalar Float where
  zero := 0.0
  infinity := 1.0 / 0.0
  isNaN := Float.isNaN
  isInfinite := Float.isInf
  truncate := Float.toUInt64
  decidableLT := inferInstance
  decidableLE := inferInstance

variable {K : Type} [Scalar K]

def isFinite (x : K) : Bool := !isNaN x && !isInfinite x

/-- The order of priorities: total, with every "not a number" equal and after all numbers. -/
def precedes (x y : K) : Bool := isNaN y || decide (x ≤ y)

def sum (xs : List K) : K := xs.foldl (· + ·) 0

inductive Exact where
  | nan
  | negInfinity
  | finite (value : Rat)
  | infinity
  deriving DecidableEq, Repr, Inhabited

namespace Exact

protected def neg : Exact → Exact
  | nan => nan
  | negInfinity => infinity
  | finite q => finite (-q)
  | infinity => negInfinity

protected def add : Exact → Exact → Exact
  | nan, _ => nan
  | _, nan => nan
  | infinity, negInfinity => nan
  | negInfinity, infinity => nan
  | infinity, _ => infinity
  | _, infinity => infinity
  | negInfinity, _ => negInfinity
  | _, negInfinity => negInfinity
  | finite p, finite q => finite (p + q)

def infinityLike (q : Rat) : Exact :=
  if q < 0 then negInfinity else if 0 < q then infinity else nan

protected def mul : Exact → Exact → Exact
  | nan, _ => nan
  | _, nan => nan
  | finite p, finite q => finite (p * q)
  | infinity, finite q => infinityLike q
  | finite p, infinity => infinityLike p
  | negInfinity, finite q => infinityLike (-q)
  | finite p, negInfinity => infinityLike (-p)
  | infinity, infinity => infinity
  | negInfinity, negInfinity => infinity
  | infinity, negInfinity => negInfinity
  | negInfinity, infinity => negInfinity

protected def div : Exact → Exact → Exact
  | nan, _ => nan
  | _, nan => nan
  | finite p, finite q => if q = 0 then infinityLike p else finite (p / q)
  | infinity, finite q => if q < 0 then negInfinity else infinity
  | negInfinity, finite q => if q < 0 then infinity else negInfinity
  | finite _, _ => finite 0
  | _, _ => nan

protected def le : Exact → Exact → Bool
  | nan, _ => false
  | _, nan => false
  | negInfinity, _ => true
  | _, infinity => true
  | finite p, finite q => decide (p ≤ q)
  | _, _ => false

protected def lt : Exact → Exact → Bool
  | nan, _ => false
  | _, nan => false
  | negInfinity, y => y ≠ negInfinity
  | x, infinity => x ≠ infinity
  | finite p, finite q => decide (p < q)
  | _, _ => false

def isNaN : Exact → Bool
  | nan => true
  | _ => false

def isInfinite : Exact → Bool
  | infinity => true
  | negInfinity => true
  | _ => false

def largestWord : Nat := UInt64.size - 1

def truncate : Exact → UInt64
  | finite q => UInt64.ofNat (min q.floor.toNat largestWord)
  | infinity => UInt64.ofNat largestWord
  | _ => 0

instance : Scalar Exact where
  zero := finite 0
  add := Exact.add
  sub x y := Exact.add x (Exact.neg y)
  mul := Exact.mul
  div := Exact.div
  lt x y := Exact.lt x y = true
  le x y := Exact.le x y = true
  beq x y := !isNaN x && x == y
  ofScientific m s e := finite (OfScientific.ofScientific m s e)
  infinity := infinity
  isNaN := isNaN
  isInfinite := isInfinite
  truncate := truncate
  decidableLT := fun x y ↦ inferInstanceAs (Decidable (Exact.lt x y = true))
  decidableLE := fun x y ↦ inferInstanceAs (Decidable (Exact.le x y = true))

end Exact

end Scalar

end RoadRouting
