import Reckoner.Binary64.Decimal
import Reckoner.Numeral.Digits

/-!
# Shortest Decimals

The shortest decimal that reads back as a given double.  For 1, 2, ... 17 digits the two multiples
of the last digit's place around the double are read back; the first number of digits at which one
of them gives the double again wins.  Where both do, the nearer one is taken, and the greater one
of two at the same distance.
-/

namespace Reckoner.Numeral

/-- `digits * 10^exponent`. -/
structure Decimal where
  /-- The significant digits as one number. -/
  digits : Nat
  /-- The power of ten of the last digit. -/
  exponent : Int
deriving DecidableEq, Repr

namespace Decimal

/-- The same decimal with a zero at the end of its digits moved into the exponent, as often as
there is one. -/
def trimZeros (d : Decimal) : Decimal :=
  if d.digits ≠ 0 ∧ d.digits % 10 = 0 then trimZeros ⟨d.digits / 10, d.exponent + 1⟩ else d
termination_by d.digits

/-- How many digits stand before the decimal point when the decimal is written in full; zero or
negative if it begins after the point. -/
def pointPosition (d : Decimal) : Int := (digitsOf d.digits).length + d.exponent

def leadingExponent (d : Decimal) : Int := d.pointPosition - 1

def toBinary64 (d : Decimal) (negative : Bool) : Binary64 :=
  .ofDecimal negative d.digits d.exponent

/-- Every magnitude is a decimal: a unit is 5^1074 of the places 10^-1074. -/
def exact (m : Magnitude) : Decimal := 
  ⟨m.units * Nat.pow 5 Binary64.unitExponent, -Binary64.unitExponent⟩

end Decimal

/-- The place that precedes every digit of every positive double: 10^-324 is less than a unit. -/
def deepestPlace : Nat := 324

/-- The number `p` with `10^(p-1) ≤ m < 10^p`, for a positive magnitude. -/
def decimalSize (m : Magnitude) : Int :=
  (digitsOf (m.units * tenPow deepestPlace / Binary64.unitsPerOne)).length - deepestPlace

/-- A magnitude as a quotient of whole numbers, in multiples of `10^place`. -/
def inPlaces (m : Magnitude) (place : Int) : Nat × Nat :=
  if place ≥ 0 then (m.units, Binary64.unitsPerOne * tenPow place.toNat)
  else (m.units * tenPow (-place).toNat, Binary64.unitsPerOne)

/-- The decimal reads back as the magnitude. -/
def readsBack (m : Magnitude) (d : Decimal) : Bool := d.toBinary64 false == .finite false m

/-- The neighbour of the magnitude among the multiples of `10^place` that reads back as it, the
nearer one if both do, and the greater one if they are equally near. -/
def neighbour? (m : Magnitude) (place : Int) : Option Decimal :=
  let (num, den) := inPlaces m place
  let low : Decimal := ⟨num / den, place⟩
  let high : Decimal := ⟨num / den + 1, place⟩
  if readsBack m low && (!readsBack m high || decide (2 * (num % den) < den)) then some low
  else if readsBack m high then some high
  else none

/-- More digits than these are never needed. -/
def enoughDigits : Nat := 17

/-- The shortest decimal that reads back as the magnitude, for a positive one. -/
def shortest (m : Magnitude) : Decimal :=
  let size := decimalSize m
  let found := (List.range enoughDigits).findSome? fun (n : Nat) => neighbour? m (size - (n + 1))
  (found.getD (.exact m)).trimZeros

end Reckoner.Numeral
