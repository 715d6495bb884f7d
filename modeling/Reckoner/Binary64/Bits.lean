import Reckoner.Binary64.Rounding

/-!
# The 64-Bit Encoding

A sign bit, eleven exponent bits and 52 fraction bits.  Read as one number, the low 63 bits count
the doubles from zero upwards, so a magnitude of `n` units with spacing `2^s` is encoded as
`s * 2^52 + n / 2^s`, above the normal range and below it alike.
-/

namespace Reckoner

/-- The place of a magnitude among the non-negative doubles. -/
def Magnitude.rank (m : Magnitude) : Nat :=
  let shift := m.units.log2 - 52
  shift * twoPow 52 + m.units / twoPow shift

namespace Binary64

/-- The encoding of a positive infinity. -/
def infinityRank : Nat := 2047 * twoPow 52

/-- What the sign adds to an encoding. -/
def signBit (negative : Bool) : Nat := if negative then twoPow 63 else 0

/-- The encoding; not-a-number has one, the quiet one without payload. -/
def toBits : Binary64 → UInt64
  | .nan => .ofNat (infinityRank + twoPow 51)
  | .infinite n => .ofNat (signBit n + infinityRank)
  | .finite n m => .ofNat (signBit n + m.rank)

/-- The number of an encoding; every payload reads as not-a-number. -/
def ofBits (bits : UInt64) : Binary64 :=
  let negative := bits.toNat ≥ twoPow 63
  let exponent := bits.toNat / twoPow 52 % 2048
  let fraction := bits.toNat % twoPow 52
  if exponent = 2047 then
    if fraction = 0 then .infinite negative else .nan
  else if exponent = 0 then
    ofQuotient negative fraction 1
  else
    ofQuotient negative ((twoPow 52 + fraction) * twoPow (exponent - 1)) 1

end Binary64

end Reckoner
