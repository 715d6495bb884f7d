import Reckoner.Binary64.Rounding

/-!
# Enclosures of Real Numbers

The elementary functions are rounded correctly: the result is the double nearest to the real value.
A real value is known only through enclosures, intervals with rational ends that contain it, and an
enclosure whose two ends round to one double settles which double that is.  `settle` asks for finer
enclosures until one does.

Enclosures are computed in fixed point: an integer `n` stands for `n * 2^-p`, and each division
drops less than one in the last place.
-/

namespace Reckoner

/-! ## Doubles from scaled integers -/

/-- The double nearest to `n * 2^exponent`.  Far outside the range of the doubles the answer is
known from the sizes. -/
def Binary64.ofScaled (n : Int) (exponent : Int) : Binary64 :=
  let negative := decide (n < 0)
  let size := exponent + n.natAbs.log2
  if n = 0 then .zero
  else if size ≥ 1024 then .infinite negative
  else if size < -1080 then .finite negative .zero
  else if exponent + Binary64.unitExponent ≥ 0 then
    .ofQuotient negative (n.natAbs * twoPow (exponent + Binary64.unitExponent).toNat) 1
  else
    .ofQuotient negative n.natAbs (twoPow (-(exponent + Binary64.unitExponent)).toNat)

namespace Elementary

/-! ## Enclosures -/

/-- All real numbers between `low * 2^exponent` and `high * 2^exponent`. -/
structure Enclosure where
  /-- The lower end. -/
  low : Int
  /-- The upper end. -/
  high : Int
  /-- The scale of both ends, as a power of two. -/
  exponent : Int
deriving Repr

namespace Enclosure

/-- The numbers that differ from `center` by no more than `radius`, in fixed point. -/
def around (center radius : Int) (precision : Nat) : Enclosure :=
  ⟨center - radius, center + radius, -precision⟩

/-- The part of the enclosure between `-bound` and `bound`. -/
def clip (bound : Nat) (e : Enclosure) : Enclosure :=
  ⟨max (-bound) (min bound e.low), max (-bound) (min bound e.high), e.exponent⟩

def lowest (e : Enclosure) : Binary64 := .ofScaled e.low e.exponent

def highest (e : Enclosure) : Binary64 := .ofScaled e.high e.exponent

end Enclosure

def firstPrecision : Nat := 192

/-- How often the precision is doubled. -/
def refinements : Nat := 4

/-- The double that the first sufficiently fine enclosure settles; the lower end of the finest one
if none does. -/
def settleFrom (enclose : Nat → Enclosure) : (left : Nat) → (precision : Nat) → Binary64
  | 0, precision => (enclose precision).lowest
  | left + 1, precision =>
    let e := enclose precision
    if e.lowest = e.highest then e.lowest else settleFrom enclose left (2 * precision)

/-- The double nearest to the number that `enclose` encloses, ever finer as the precision grows. -/
def settle (enclose : Nat → Enclosure) : Binary64 := settleFrom enclose refinements firstPrecision

/-! ## Series -/

/-- The sum of a series: `weigh i t` is what the `i`-th term `t` adds, `next i t` the term after
it.  It ends with a term that is zero in fixed point, or after the given number of terms. -/
def sumSeries (next weigh : Nat → Int → Int) : (terms i : Nat) → (term : Int) → Int
  | 0, _, _ => 0
  | terms + 1, i, term =>
    if term = 0 then 0 else weigh i term + sumSeries next weigh terms (i + 1) (next i term)

def unweighted (_ : Nat) (term : Int) : Int := term

/-- Each term over the odd number of its place, 1, 3, 5, ... -/
def overOdd (i : Nat) (term : Int) : Int := term.tdiv (2 * i + 1)

/-- So many terms exhaust every series used here, whose terms at least halve. -/
def termBound (precision : Nat) : Nat := precision + 2

def fixedSquare (x : Int) (precision : Nat) : Int := x * x / twoPow precision

/-! ## Constants -/

/-- The bits that constants are computed with beyond those asked for, so that the errors of their
series vanish with them. -/
def guardBits : Nat := 32

/-- The arc tangent of `1 / n`, from its Taylor series. -/
def arctanInverse (n precision : Nat) : Int :=
  let first := twoPow precision / n
  sumSeries (fun _ t => -(t.tdiv (n * n))) overOdd (termBound precision) 0 (first : Nat)

/-- Twice the inverse hyperbolic tangent of a number of at most one third, from its Taylor
series. -/
def doubleArtanh (x : Int) (precision : Nat) : Int :=
  let square := fixedSquare x precision
  2 * sumSeries (fun _ t => (t * square).tdiv (twoPow precision)) overOdd (termBound precision) 0 x

/-- The circle constant, too small by less than one in the last place or too large by as much:
Machin's four times `4 * arctan (1/5) - arctan (1/239)`. -/
def pi (precision : Nat) : Int :=
  let fine := precision + guardBits
  4 * (4 * arctanInverse 5 fine - arctanInverse 239 fine) / twoPow guardBits

/-- The natural logarithm of two, as exact as `pi`: twice the inverse hyperbolic tangent of one
third. -/
def ln2 (precision : Nat) : Int :=
  let fine := precision + guardBits
  doubleArtanh ((twoPow fine) / 3 : Nat) fine / twoPow guardBits

end Elementary

end Reckoner
