import Reckoner.Fault

/-!
# The Text of a Result

A result is written with the shortest digits that read back.  It is written in full if its first
digit stands between the fourth place after the point and the sixteenth before it, and as mantissa
and exponent otherwise, the exponent with its sign and at least two digits.  Both zeros are `0`.
-/

namespace Reckoner

namespace Binary64

/-- Results whose leading exponent is at least this are written in full, ... -/
def leastFullExponent : Int := -4

/-- ... up to, but excluding, this one. -/
def endOfFullExponents : Int := 16

def leastExponentDigits : Nat := 2

def decimalText (d : Numeral.Decimal) : List Char :=
  if leastFullExponent ≤ d.leadingExponent ∧ d.leadingExponent < endOfFullExponents then
    Numeral.positional d
  else
    Numeral.exponential leastExponentDigits d

/-- The text of a result, which has to be finite. -/
def resultText : Binary64 → Except EvalFault String
  | finite negative m =>
    if m.units = 0 then .ok "0"
    else .ok (.ofList (Numeral.signText negative ++ decimalText (Numeral.shortest m)))
  | _ => .error .nonFinite

end Binary64

end Reckoner
