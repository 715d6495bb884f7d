import Reckoner.Binary64.Decimal
import Reckoner.Numeral.Digits

/-!
# Written Numbers

A number is written as digits with an optional point and fraction, or as a point with a fraction,
and either may have an exponent.  `NumberText.read` takes the longest such writing off the
beginning of a text.  An `e` without digits after it, or after its sign, does not belong to the
number.
-/

namespace Reckoner

/-- An exponent as it is written. -/
structure ExponentText where
  /-- The letter, and the sign if there is one. -/
  mark : List Char
  /-- The sign is a minus. -/
  negative : Bool
  /-- The digits. -/
  digits : List Char

namespace ExponentText

def chars (e : ExponentText) : List Char := e.mark ++ e.digits

def value (e : ExponentText) : Int :=
  let size : Int := Numeral.readDigits e.digits
  if e.negative then -size else size

/-- The exponent after its mark, unless there are no digits. -/
def afterMark? (mark : List Char) (negative : Bool) (cs : List Char) : Option ExponentText :=
  let digits := cs.takeWhile Char.isDigit
  if digits = [] then none else some ⟨mark, negative, digits⟩

def read? : List Char → Option ExponentText
  | letter :: rest =>
    if letter = 'e' ∨ letter = 'E' then
      match rest with
      | '+' :: digits => afterMark? [letter, '+'] false digits
      | '-' :: digits => afterMark? [letter, '-'] true digits
      | digits => afterMark? [letter] false digits
    else none
  | [] => none

end ExponentText

/-- A number as it is written. -/
structure NumberText where
  /-- The digits before the point. -/
  whole : List Char
  /-- The digits after the point, if there is a point. -/
  fraction : Option (List Char)
  /-- The exponent, if there is one. -/
  exponent : Option ExponentText

namespace NumberText

def chars (n : NumberText) : List Char :=
  n.whole ++ (n.fraction.elim [] ('.' :: ·)) ++ (n.exponent.elim [] ExponentText.chars)

/-- The double nearest to the number that is written. -/
def value (n : NumberText) : Binary64 :=
  let fraction := n.fraction.getD []
  let exponent := n.exponent.elim 0 ExponentText.value
  .ofDecimal false (Numeral.readDigits (n.whole ++ fraction)) (exponent - fraction.length)

/-- A number begins with a digit, or with a point before a digit. -/
def starts : List Char → Bool
  | '.' :: next :: _ => next.isDigit
  | c :: _ => c.isDigit
  | [] => false

/-- The longest number at the beginning of a text that starts with one. -/
def read (cs : List Char) : NumberText :=
  let whole := cs.takeWhile Char.isDigit
  match cs.dropWhile Char.isDigit with
  | '.' :: rest =>
    ⟨whole, some (rest.takeWhile Char.isDigit), ExponentText.read? (rest.dropWhile Char.isDigit)⟩
  | rest => ⟨whole, none, ExponentText.read? rest⟩

end NumberText

end Reckoner
