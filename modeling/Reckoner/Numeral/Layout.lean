import Reckoner.Numeral.Shortest

/-!
# Layouts of Decimals

The two ways a decimal is written: in full, with zeros filled in up to the point, and as a mantissa
with an exponent.  `Binary64.text` is the plain text of a double, which never has an exponent.
-/

namespace Reckoner.Numeral

def zeros (n : Nat) : List Char := List.replicate n '0'

/-- The sign of a number: a minus or nothing. -/
def signText (negative : Bool) : List Char := if negative then ['-'] else []

/-- The decimal in full: no exponent, no point unless a digit follows it. -/
def positional (d : Decimal) : List Char :=
  let digits := digitsOf d.digits
  let point := d.pointPosition
  if d.exponent ≥ 0 then digits ++ zeros d.exponent.toNat
  else if point ≤ 0 then '0' :: '.' :: zeros (-point).toNat ++ digits
  else digits.take point.toNat ++ '.' :: digits.drop point.toNat

/-- The digits with a point after the first, if there is a second. -/
def mantissa (d : Decimal) : List Char :=
  match digitsOf d.digits with
  | first :: second :: rest => first :: '.' :: second :: rest
  | digits => digits

/-- The decimal as mantissa and exponent.  The exponent has its sign always and at least
`leastDigits` digits. -/
def exponential (leastDigits : Nat) (d : Decimal) : List Char :=
  let exponent := d.leadingExponent
  let digits := digitsOf exponent.natAbs
  mantissa d ++ 'e' :: (if exponent < 0 then '-' else '+') ::
    (zeros (leastDigits - digits.length) ++ digits)

/-- The decimal of a magnitude: its shortest one, and a lone zero for zero. -/
def decimalOf (m : Magnitude) : Decimal := if m.units = 0 then ⟨0, 0⟩ else shortest m

end Reckoner.Numeral

namespace Reckoner

def Binary64.text : Binary64 → String
  | .nan => "NaN"
  | .infinite n => .ofList (Numeral.signText n ++ ['i', 'n', 'f'])
  | .finite n m => .ofList (Numeral.signText n ++ Numeral.positional (Numeral.decimalOf m))

end Reckoner
