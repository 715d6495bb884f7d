import Reckoner.Binary64.Rounding

/-!
# Doubles from Decimals

The double nearest to `digits * 10^exponent`, for digits and an exponent of any size.  Beyond the
range of the doubles in either direction the answer is known from the sizes alone, so no power of
ten is computed that is larger than the digits call for.
-/

namespace Reckoner.Binary64

/-- No decimal with this exponent or a greater one is finite, zero apart. -/
def overflowExponent : Int := 309

/-- `digits * 10^-places` is less than half a unit, judged by sizes: `10^places` has more than
`3 * places` bits. -/
def negligible (digits places : Nat) : Bool := digits.log2 + 1076 ≤ 3 * places

/-- The double nearest to `digits * 10^exponent`, with the given sign. -/
def ofDecimal (negative : Bool) (digits : Nat) (exponent : Int) : Binary64 :=
  if digits = 0 then
    .finite negative .zero
  else if exponent ≥ overflowExponent then
    .infinite negative
  else if exponent ≥ 0 then
    ofQuotient negative (digits * tenPow exponent.toNat * unitsPerOne) 1
  else
    let places := (-exponent).toNat
    if negligible digits places then
      .finite negative .zero
    else
      ofQuotient negative (digits * unitsPerOne) (tenPow places)

end Reckoner.Binary64
