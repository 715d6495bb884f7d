import Reckoner.Binary64.Rounding

/-!
# Arithmetic of Doubles

Sum, difference, product, quotient and square root of two doubles, each the exact result rounded
once.  Zeros, infinities and not-a-number follow the usual rules: a sum that cancels is a positive
zero unless both operands were negative, and the invalid combinations give not-a-number.
-/

namespace Reckoner.Binary64

/-! ## Sum and difference -/

def add : Binary64 → Binary64 → Binary64
  | .nan, _ => .nan
  | _, .nan => .nan
  | .infinite n, .infinite n' => if n == n' then .infinite n else .nan
  | .infinite n, .finite .. => .infinite n
  | .finite .., .infinite n => .infinite n
  | .finite n m, .finite n' m' =>
    let sum := signedUnits n m + signedUnits n' m'
    if sum = 0 then .finite (n && n') .zero else ofQuotient (decide (sum < 0)) sum.natAbs 1

/-- The difference: the sum with the second operand's sign turned. -/
def sub (x y : Binary64) : Binary64 := add x (neg y)

/-! ## Product and quotient -/

def mul : Binary64 → Binary64 → Binary64
  | .nan, _ => .nan
  | _, .nan => .nan
  | .infinite n, .infinite n' => .infinite (n ^^ n')
  | .infinite n, .finite n' m' => if m'.units = 0 then .nan else .infinite (n ^^ n')
  | .finite n m, .infinite n' => if m.units = 0 then .nan else .infinite (n ^^ n')
  | .finite n m, .finite n' m' => ofQuotient (n ^^ n') (m.units * m'.units) unitsPerOne

def div : Binary64 → Binary64 → Binary64
  | .nan, _ => .nan
  | _, .nan => .nan
  | .infinite _, .infinite _ => .nan
  | .infinite n, .finite n' _ => .infinite (n ^^ n')
  | .finite n _, .infinite n' => .finite (n ^^ n') .zero
  | .finite n m, .finite n' m' =>
    if m'.units = 0 then
      if m.units = 0 then .nan else .infinite (n ^^ n')
    else
      ofQuotient (n ^^ n') (m.units * unitsPerOne) m'.units

/-! ## Square root -/

/-- Newton's descent to the root of `n` from a guess above it: stop as soon as the next guess is
no smaller. -/
def descendToRoot (n guess : Nat) : Nat :=
  let next := (guess + n / guess) / 2
  if next < guess then descendToRoot n next else guess
termination_by guess

/-- The greatest whole number whose square is at most `n`. -/
def floorSqrt (n : Nat) : Nat := descendToRoot n (twoPow (n.log2 / 2 + 1))

/-- The square root; not-a-number below zero, and a zero is its own root.  The root of `m` units is
the root of `m * 2^1074` counted in units.  It has far more than 53 bits, so an inexact root may be
replaced by a point half-way above its floor before the one rounding. -/
def sqrt : Binary64 → Binary64
  | .nan => .nan
  | .infinite n => if n then .nan else .infinite false
  | .finite n m =>
    if m.units = 0 then .finite n m
    else if n then .nan
    else
      let square := m.units * unitsPerOne
      let root := floorSqrt square
      ofQuotient false (2 * root + if root * root = square then 0 else 1) 2

end Reckoner.Binary64
