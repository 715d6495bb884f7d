import Reckoner.Elementary.Enclosure

/-!
# Sine, Cosine and Tangent

The argument is reduced by the nearest multiple of a quarter turn, with as many bits of the circle
constant as the argument has before its point and some more, so the reduction is as good for
2^1000 as for 2.  What is left lies between -0.8 and 0.8, where the Taylor series are short.

The sine and the tangent of a number below 2^-27 differ from it by less than half of its spacing,
so they are the number itself, zeros with their sign included.
-/

namespace Reckoner

namespace Elementary

/-! ## Reduction -/

/-- What is left of a positive number of units after the nearest multiple of a quarter turn: how
often the quarter turn was taken, and the rest in fixed point. -/
def reduce (units precision : Nat) : Nat × Int :=
  let fine := precision + (units.log2 - Binary64.unitExponent) + 8
  let x : Nat := units * twoPow fine / Binary64.unitsPerOne
  let circle := pi fine
  let quarters := ((2 * x + circle / 2) / circle).toNat
  (quarters, (x - quarters * circle / 2) / twoPow (fine - precision))

/-! ## Series around zero -/

def sineSeries (x : Int) (precision : Nat) : Int :=
  let square := fixedSquare x precision
  let next (i : Nat) (t : Int) :=
    -((t * square).tdiv (twoPow precision * ((2 * i + 2) * (2 * i + 3))))
  sumSeries next unweighted (termBound precision) 0 x

def cosineSeries (x : Int) (precision : Nat) : Int :=
  let square := fixedSquare x precision
  let next (i : Nat) (t : Int) :=
    -((t * square).tdiv (twoPow precision * ((2 * i + 1) * (2 * i + 2))))
  sumSeries next unweighted (termBound precision) 0 (twoPow precision)

/-- The sine after so many quarter turns and `x`. -/
def sineAfter (quarters : Nat) (x : Int) (precision : Nat) : Int :=
  match quarters % 4 with
  | 0 => sineSeries x precision
  | 1 => cosineSeries x precision
  | 2 => -sineSeries x precision
  | _ => -cosineSeries x precision

/-- Both series and the reduction are off by no more than this in the last place. -/
def circularError (precision : Nat) : Int := 4 * precision

/-! ## Enclosures -/

/-- The sine of a positive number of units, after some quarter turns more. -/
def encloseSine (units turns precision : Nat) : Enclosure :=
  let (quarters, rest) := reduce units precision
  let value := sineAfter (quarters + turns) rest precision
  (Enclosure.around value (circularError precision) precision).clip (twoPow precision)

/-- No tangent of a double is as large as 2^64. -/
def tangentBound (precision : Nat) : Nat := twoPow (precision + 64)

/-- The tangent of a positive number of units: the quotient of the enclosed sine and cosine, if the
enclosure of the cosine tells its sign. -/
def encloseTangent (units precision : Nat) : Enclosure :=
  let sine := encloseSine units 0 precision
  let cosine := encloseSine units 1 precision
  let bound := tangentBound precision
  let quotient (low high divisorLow divisorHigh : Int) : Enclosure :=
    let lowest (n : Int) := if n < 0 then n * twoPow precision / divisorLow
      else n * twoPow precision / divisorHigh
    let highest (n : Int) := if n < 0 then n * twoPow precision / divisorHigh + 1
      else n * twoPow precision / divisorLow + 1
    ⟨lowest low, highest high, -precision⟩
  let e :=
    if cosine.low > 0 then quotient sine.low sine.high cosine.low cosine.high
    else if cosine.high < 0 then quotient (-sine.high) (-sine.low) (-cosine.high) (-cosine.low)
    else ⟨-bound, bound, -precision⟩
  e.clip bound

/-! ## The functions -/

/-- Fewer units than these are their own sine and tangent. -/
def linearBelow : Nat := twoPow (Binary64.unitExponent - 27)

end Elementary

namespace Binary64

open Elementary

def sin : Binary64 → Binary64
  | .finite n m =>
    if m.units < linearBelow then .finite n m
    else
      let value := settle (encloseSine m.units 0)
      if n then value.neg else value
  | _ => .nan

def cos : Binary64 → Binary64
  | .finite _ m => settle (encloseSine m.units 1)
  | _ => .nan

def tan : Binary64 → Binary64
  | .finite n m =>
    if m.units < linearBelow then .finite n m
    else
      let value := settle (encloseTangent m.units)
      if n then value.neg else value
  | _ => .nan

end Binary64

end Reckoner
