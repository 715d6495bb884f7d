import Reckoner.Binary64.Arithmetic
import Reckoner.Binary64.Decimal
import Reckoner.Numeral.Layout

/-!
# JSON Numbers

An integer that fits 64 bits is kept exactly.  Every other number is made from its leading digits,
as many as fit 64 bits, and one multiplication or division by a power of ten, so it may miss the
nearest double by a little; a number beyond the doubles is refused.

Writing is the reverse: integers in full, and doubles with the shortest digits that read back, with
a point always, in full up to the fifth place after it and up to sixteen digits before it.
-/

namespace Reckoner.Json

/-! ## As written -/

/-- A number as it is written. -/
structure NumberText where
  negative : Bool
  /-- The digits before the point, at least one. -/
  whole : List Char
  /-- The digits after the point; none if there is no point. -/
  fraction : List Char
  /-- Whether the exponent is negative, and its digits. -/
  exponent : Option (Bool × List Char)

/-- The digits before the point: a lone zero, or digits that do not begin with one. -/
def readWhole (cs : List Char) : Option (List Char × List Char) :=
  match cs.takeWhile Char.isDigit with
  | [] => none
  | '0' :: _ :: _ => none
  | digits => some (digits, cs.dropWhile Char.isDigit)

def readDigits (cs : List Char) : Option (List Char × List Char) :=
  let digits := cs.takeWhile Char.isDigit
  if digits = [] then none else some (digits, cs.dropWhile Char.isDigit)

def readFraction : List Char → Option (List Char × List Char)
  | '.' :: rest => readDigits rest
  | rest => some ([], rest)

def readExponentSign : List Char → Bool × List Char
  | '-' :: rest => (true, rest)
  | '+' :: rest => (false, rest)
  | rest => (false, rest)

def readExponent : List Char → Option (Option (Bool × List Char) × List Char)
  | [] => some (none, [])
  | letter :: rest =>
    if letter = 'e' ∨ letter = 'E' then do
      let (negative, rest) := readExponentSign rest
      let (digits, rest) ← readDigits rest
      some (some (negative, digits), rest)
    else some (none, letter :: rest)

def readUnsigned (negative : Bool) (cs : List Char) : Option (NumberText × List Char) := do
  let (whole, cs) ← readWhole cs
  let (fraction, cs) ← readFraction cs
  let (exponent, cs) ← readExponent cs
  some (⟨negative, whole, fraction, exponent⟩, cs)

def readNumber : List Char → Option (NumberText × List Char)
  | '-' :: rest => readUnsigned true rest
  | rest => readUnsigned false rest

/-! ## Values -/

inductive Number where
  | integer (value : Int)
  | real (value : Binary64)
deriving DecidableEq

def maxWord : Nat := twoPow 64 - 1

/-- The greatest exponent that is looked at. -/
def maxExponent : Nat := twoPow 31 - 1

/-- As many digits as fit 64 bits, after those of `n`, and the digits that are left. -/
def leadingDigits (n : Nat) : List Char → Nat × List Char
  | [] => (n, [])
  | c :: rest =>
    let next := 10 * n + Numeral.readDigits [c]
    if next ≤ maxWord then leadingDigits next rest else (n, c :: rest)

/-- The greatest power of ten that is multiplied or divided by at once. -/
def tenStep : Nat := 308

def tenTo (n : Nat) : Binary64 := .ofDecimal false 1 n

/-- The double times a power of ten, unless it grows beyond all bounds. -/
def scaleByTen (x : Binary64) (exponent : Int) : Option Binary64 :=
  if exponent.natAbs ≤ tenStep then
    if exponent < 0 then some (x.div (tenTo exponent.natAbs))
    else
      let product := x.mul (tenTo exponent.natAbs)
      if product.isFinite then some product else none
  else if x.isZero then some x
  else if exponent > 0 then none
  else scaleByTen (x.div (tenTo tenStep)) (exponent + tenStep)
termination_by exponent.natAbs
decreasing_by unfold tenStep at *; omega

namespace NumberText

def signed (t : NumberText) (x : Binary64) : Binary64 := if t.negative then x.neg else x

def real? (t : NumberText) (significand : Nat) (exponent : Int) : Option Number :=
  (scaleByTen (.ofNat significand) exponent).map fun x => .real (t.signed x)

/-- An integer that fits 64 bits, with a sign or without; a double if it does not, or if it is a
negative zero. -/
def integer (t : NumberText) (magnitude : Nat) : Number :=
  if !t.negative then .integer magnitude
  else if magnitude = 0 ∨ magnitude > twoPow 63 then .real (t.signed (.ofNat magnitude))
  else .integer (-magnitude)

def value? (t : NumberText) : Option Number :=
  let (whole, uncounted) := leadingDigits 0 t.whole
  let (significand, dropped) := leadingDigits whole t.fraction
  let places : Int := uncounted.length - (t.fraction.length - dropped.length : Nat)
  match t.exponent with
  | none =>
    if t.fraction = [] ∧ uncounted = [] then some (t.integer whole)
    else t.real? significand places
  | some (negative, digits) =>
    let exponent := Numeral.readDigits digits
    if exponent ≤ maxExponent then
      t.real? significand (if negative then places - exponent else places + exponent)
    else if significand = 0 ∨ negative then some (.real (t.signed .zero))
    else none

end NumberText

/-! ## Text -/

/-- Doubles whose leading exponent is at least this are written in full, ... -/
def leastFullExponent : Int := -5

/-- ... up to, but excluding, this one. -/
def endOfFullExponents : Int := 16

def realText (d : Numeral.Decimal) : List Char :=
  if d.digits = 0 ∨ leastFullExponent ≤ d.leadingExponent ∧ d.leadingExponent < endOfFullExponents
  then
    Numeral.positional d ++ if d.exponent ≥ 0 then ['.', '0'] else []
  else
    Numeral.exponential 1 d

namespace Number

/-- The text of a number.  What is not finite, and so no number of JSON, is written as null. -/
def text : Number → String
  | integer value =>
    .ofList (Numeral.signText (decide (value < 0)) ++ Numeral.digitsOf value.natAbs)
  | real (.finite negative m) =>
    .ofList (Numeral.signText negative ++ realText (Numeral.decimalOf m))
  | real _ => "null"

end Number

end Reckoner.Json
