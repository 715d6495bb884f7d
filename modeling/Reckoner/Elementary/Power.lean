import Reckoner.Binary64.Arithmetic
import Reckoner.Binary64.Integral
import Reckoner.Elementary.Logarithm

/-!
# Powers

A power of two positive doubles is either exact, by being a short product of equal factors, or
it is never half-way between two doubles, so that enclosures settle it.  `exactPower?` finds the
exact ones: while the exponent has a fraction the base must be a square; then a base that is a
power of two stays one, and otherwise more than 64 equal factors have too many bits for a double or
a half-way point.  All others are the exponential of the exponent times the logarithm of the base.

An exact product that falls half-way between two doubles may go to either, since both are nearest
and a power is promised no better than that.  Here it goes to the greater one, which is a choice:
the arithmetic operations, whose ties are promised to go to the even one, do not share it.
-/

namespace Reckoner

namespace Elementary

/-! ## Exact powers -/

/-- The number of twos that divide `n`, looked for up to a bound. -/
def twosIn (n : Nat) : (bound : Nat) → Nat
  | 0 => 0
  | bound + 1 => if n % 2 = 0 then twosIn (n / 2) bound + 1 else 0

/-- A positive number of units as an odd number and a power of two. -/
def oddParts (units : Nat) : Nat × Int :=
  let twos := twosIn units units.log2
  (units / twoPow twos, (twos : Int) - Binary64.unitExponent)

/-- The square root of `odd * 2^exponent`, taken `times` over, if it stays exact. -/
def exactRoot? (odd : Nat) (exponent : Int) : (times : Nat) → Option (Nat × Int)
  | 0 => some (odd, exponent)
  | times + 1 =>
    let root := Binary64.floorSqrt odd
    if root * root = odd ∧ exponent % 2 = 0 then exactRoot? root (exponent / 2) times else none

/-- A product of more equal odd factors has more than 54 bits. -/
def factorBound : Nat := 64

/-- The power of a positive number of units if it is exact, as an integer and a power of two. -/
def exactPower? (base : Nat) (negative : Bool) (exponent : Nat) : Option (Nat × Int) :=
  let (odd, twos) := oddParts base
  let (numerator, places) := oddParts exponent
  match exactRoot? odd twos (-places).toNat with
  | none => none
  | some (odd, twos) =>
    let factors := numerator * twoPow places.toNat
    if odd = 1 then some (1, if negative then -(twos * factors) else twos * factors)
    else if negative ∨ factors > factorBound then none
    else some (Nat.pow odd factors, twos * factors)

/-! ## Other powers -/

def expSeries (x : Int) (precision : Nat) : Int :=
  let one := twoPow precision
  sumSeries (fun i t => (t * x).tdiv (one * (i + 1))) unweighted (termBound precision) 0 one

/-- The exponential of a number beyond this is infinite, and that of its opposite is zero. -/
def expBound : Int := 800

/-- The exponential of what lies between two fixed-point numbers: by the nearest multiple of the
logarithm of two, and a series for the rest. -/
def encloseExp (low high : Int) (precision : Nat) : Enclosure :=
  if low > expBound * twoPow precision then ⟨1, 1, 1100⟩
  else if high < -expBound * twoPow precision then ⟨0, 1, -1100⟩
  else
    let two := ln2 precision
    let twos := (2 * low + two) / (2 * two)
    let value := expSeries (low - twos * two) precision
    let error := 2 * (high - low) + 4 * precision * (twos.natAbs + 1)
    ⟨value - error, value + error, twos - precision⟩

/-- The power of a positive number of units to a signed number of units. -/
def enclosePower (base : Nat) (negative : Bool) (exponent precision : Nat) : Enclosure :=
  let log := encloseLog base precision
  let times (n : Int) := n * exponent / Binary64.unitsPerOne
  if negative then encloseExp (times (-log.high)) (times (-log.low) + 1) precision
  else encloseExp (times log.low) (times log.high + 1) precision

end Elementary

namespace Binary64

open Elementary

def isOdd : Binary64 → Bool
  | .finite n m => isIntegral (.finite n m) && m.units / unitsPerOne % 2 == 1
  | _ => false

/-- How far the bit that `roundProduct` adds lies behind a product: more than the bits of a double,
so that it decides nothing but a half-way case. -/
def guardBits : Nat := 64

/-- A double nearest to `n * 2^twos`.  A power of two that falls half-way goes to the even
neighbour.  That any other product goes to the greater one is a choice, made by a last bit that tips
the balance. -/
def roundProduct (n : Nat) (twos : Int) : Binary64 :=
  if n = 1 then ofScaled 1 twos else ofScaled (n * twoPow guardBits + 1) (twos - guardBits)

/-- The power of a positive finite number, other than one, to a finite exponent other than zero. -/
def positivePower (base : Nat) (negative : Bool) (exponent : Nat) : Binary64 :=
  match exactPower? base negative exponent with
  | some (n, twos) => roundProduct n twos
  | none => settle (enclosePower base negative exponent)

/-- The power to an infinite exponent: what repeated multiplication, or division, tends to. -/
def powerToInfinity (base : Magnitude) (negative : Bool) : Binary64 :=
  if base.units = unitsPerOne then one
  else if decide (base.units < unitsPerOne) == negative then .infinite false
  else zero

/-- The power of a zero or of an infinity: it grows beyond all bounds or vanishes, with a sign. -/
def boundaryPower (grows negative : Bool) : Binary64 :=
  if grows then .infinite negative else .finite negative .zero

/-- The power.  Everything to the power zero, and one to every power, is one, not-a-number
included.  A negative base has powers to whole exponents only, with the sign of the base if the
exponent is odd. -/
def pow (base exponent : Binary64) : Binary64 :=
  let odd := isOdd exponent
  if exponent.isZero || base == one then one
  else
    match base, exponent with
    | .nan, _ => .nan
    | _, .nan => .nan
    | .infinite n, .infinite n' => boundaryPower (!n') (n && odd)
    | .infinite n, .finite n' _ => boundaryPower (!n') (n && odd)
    | .finite _ m, .infinite n' => powerToInfinity m n'
    | .finite n m, .finite n' m' =>
      if m.units = 0 then boundaryPower n' (n && odd)
      else if n && !isIntegral exponent then .nan
      else
        let value := if m.units = unitsPerOne then one else positivePower m.units n' m'.units
        if n && odd then value.neg else value

end Binary64

end Reckoner
