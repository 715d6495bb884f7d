import Reckoner.Elementary.Enclosure

/-!
# Natural Logarithm

A positive double is `m * 2^e` with `m` between 3/4 and 3/2, and its logarithm is `e` times the
logarithm of two plus twice the inverse hyperbolic tangent of `(m - 1) / (m + 1)`.
-/

namespace Reckoner

namespace Elementary

/-- The number, taken as `fraction / 2^bits * 2^exponent` with a fraction between 3/4 and 3/2:
the power of two that the fraction is measured by, and the exponent. -/
def splitExponent (units : Nat) : Nat × Int :=
  let bits := units.log2
  let exponent : Int := bits - Binary64.unitExponent
  if 2 * units < 3 * twoPow bits then (twoPow bits, exponent) else (twoPow (bits + 1), exponent + 1)

/-- The logarithm of a positive number of units, in fixed point, and what it may be off by. -/
def logSeries (units precision : Nat) : Int × Int :=
  let (one, exponent) := splitExponent units
  let ratio := (((units : Int) - one) * twoPow precision).tdiv (units + one)
  (doubleArtanh ratio precision + exponent * ln2 precision,
    4 * precision * (exponent.natAbs + 1))

/-- No logarithm of a double is as large as 1024. -/
def logBound (precision : Nat) : Nat := twoPow (precision + 10)

/-- The logarithm of a positive number of units. -/
def encloseLog (units precision : Nat) : Enclosure :=
  let (value, error) := logSeries units precision
  (Enclosure.around value error precision).clip (logBound precision)

end Elementary

namespace Binary64

open Elementary

/-- The natural logarithm: negative infinity at the zeros and not-a-number below them.  That of one
is zero, which no enclosure could settle; all others are irrational. -/
def log : Binary64 → Binary64
  | .nan => .nan
  | .infinite n => if n then .nan else .infinite false
  | .finite n m =>
    if m.units = 0 then .infinite true
    else if n then .nan
    else if m.units = unitsPerOne then .zero
    else settle (encloseLog m.units)

end Binary64

end Reckoner
