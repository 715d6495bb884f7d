import Reckoner.Binary64.Decimal
import Reckoner.Json.Strings
import Reckoner.Numeral.Digits

/-!
# TOML Scalars

The values that are written without quotation marks: truth values, integers, floating-point
numbers, dates and times.  All of them are runs of the same few characters, so the run is taken
first and recognised as a whole.  Of dates and times only the validity matters here.
-/

namespace Reckoner.Toml

/-- A value written without quotation marks. -/
inductive Scalar where
  | boolean (value : Bool)
  | integer (value : Int)
  | float (value : Binary64)
  | dateTime
  /-- A number, but not one that any reader has room for. -/
  | tooLarge
deriving DecidableEq

/-! ## Digits with underscores -/

/-- The digits of a text in which single underscores may stand between digits. -/
def plainDigits? (isDigit : Char → Bool) : List Char → Option (List Char)
  | [] => none
  | [c] => if isDigit c then some [c] else none
  | c :: '_' :: rest => if isDigit c then (plainDigits? isDigit rest).map (c :: ·) else none
  | c :: next :: rest =>
    if isDigit c then (plainDigits? isDigit (next :: rest)).map (c :: ·) else none

/-- The sign of a number, and the text after it: whether it is a minus. -/
def splitSign : List Char → Bool × List Char
  | '-' :: rest => (true, rest)
  | '+' :: rest => (false, rest)
  | rest => (false, rest)

/-- Decimal digits of which the first is no zero, unless it is alone. -/
def wholeDigits? (cs : List Char) : Option (List Char) := do
  match ← plainDigits? Char.isDigit cs with
  | '0' :: _ :: _ => none
  | digits => some digits

/-! ## Integers -/

def isOctal (c : Char) : Bool := decide ('0' ≤ c) && decide (c ≤ '7')

def isBinary (c : Char) : Bool := c == '0' || c == '1'

def isHexadecimal (c : Char) : Bool := (Json.hexValue? c).isSome

/-- The number of some digits to a base of at most sixteen. -/
def inBase (base : Nat) (digits : List Char) : Int :=
  digits.foldl (fun n c => base * n + (Json.hexValue? c).getD 0) (0 : Nat)

/-- An integer: with a letter for its base and no sign, or decimal. -/
def integer? : List Char → Option Int
  | '0' :: 'x' :: rest => (plainDigits? isHexadecimal rest).map (inBase 16)
  | '0' :: 'o' :: rest => (plainDigits? isOctal rest).map (inBase 8)
  | '0' :: 'b' :: rest => (plainDigits? isBinary rest).map (inBase 2)
  | cs =>
    let (negative, rest) := splitSign cs
    (wholeDigits? rest).map fun digits => if negative then -inBase 10 digits else inBase 10 digits

/-! ## Floating-point numbers -/

def isExponentMark (c : Char) : Bool := c == 'e' || c == 'E'

/-- The exponent of a number: the part after its mark, which may be missing. -/
def exponent? : List Char → Option Int
  | [] => some 0
  | _ :: rest =>
    let (negative, digits) := splitSign rest
    (plainDigits? Char.isDigit digits).map fun digits =>
      if negative then -inBase 10 digits else inBase 10 digits

/-- The fraction of a number: the part after the point, which may be missing. -/
def fraction? : List Char → Option (List Char)
  | [] => some []
  | _ :: rest => plainDigits? Char.isDigit rest

/-- A floating-point number without its sign. -/
def unsignedFloat? (negative : Bool) (cs : List Char) : Option Binary64 :=
  let base := cs.takeWhile fun c => !isExponentMark c
  let whole := base.takeWhile (· != '.')
  if cs = ['i', 'n', 'f'] then some (.infinite negative)
  else if cs = ['n', 'a', 'n'] then some .nan
  else if whole.length = cs.length then none
  else do
    let digits ← wholeDigits? whole
    let fraction ← fraction? (base.drop whole.length)
    let exponent ← exponent? (cs.drop base.length)
    let significand := Numeral.readDigits (digits ++ fraction)
    some (.ofDecimal negative significand (exponent - fraction.length))

def float? (cs : List Char) : Option Binary64 :=
  let (negative, rest) := splitSign cs
  unsignedFloat? negative rest

/-! ## Sizes -/

/-- The scalar of an integer: 128 bits, with a sign or without, are room enough. -/
def ofInteger (value : Int) : Scalar :=
  if -twoPow 127 ≤ value ∧ value < twoPow 128 then .integer value else .tooLarge

/-- The scalar of a floating-point number, which must be finite if it is written with digits. -/
def ofFloat (written : List Char) (value : Binary64) : Scalar :=
  if !value.isFinite && written.any Char.isDigit then .tooLarge else .float value

/-! ## Dates and times -/

def fixedNumber? (count : Nat) (cs : List Char) : Option (Nat × List Char) :=
  let digits := cs.take count
  if digits.length = count ∧ digits.all Char.isDigit then
    some (Numeral.readDigits digits, cs.drop count)
  else none

def after? (c : Char) : List Char → Option (List Char)
  | first :: rest => if first = c then some rest else none
  | [] => none

def isLeapYear (year : Nat) : Bool := year % 4 == 0 && (year % 100 != 0 || year % 400 == 0)

def daysIn (year month : Nat) : Nat :=
  match month with
  | 2 => if isLeapYear year then 29 else 28
  | 4 | 6 | 9 | 11 => 30
  | 1 | 3 | 5 | 7 | 8 | 10 | 12 => 31
  | _ => 0

def afterDate? (cs : List Char) : Option (List Char) := do
  let (year, cs) ← fixedNumber? 4 cs
  let cs ← after? '-' cs
  let (month, cs) ← fixedNumber? 2 cs
  let cs ← after? '-' cs
  let (day, cs) ← fixedNumber? 2 cs
  if 1 ≤ day ∧ day ≤ daysIn year month then some cs else none

def afterFraction? : List Char → Option (List Char)
  | '.' :: rest =>
    if (rest.takeWhile Char.isDigit).isEmpty then none else some (rest.dropWhile Char.isDigit)
  | rest => some rest

def afterTime? (cs : List Char) : Option (List Char) := do
  let (hour, cs) ← fixedNumber? 2 cs
  let cs ← after? ':' cs
  let (minute, cs) ← fixedNumber? 2 cs
  if hour > 23 ∨ minute > 59 then none
  else
    match cs with
    | ':' :: cs => do
      let (second, cs) ← fixedNumber? 2 cs
      if second > 60 then none else afterFraction? cs
    | cs => some cs

/-- The distance from universal time, less than a day and which may be missing, and nothing after
it. -/
def isOffset (cs : List Char) : Bool :=
  match cs with
  | [] => true
  | ['Z'] => true
  | ['z'] => true
  | sign :: rest =>
    (sign == '+' || sign == '-') &&
      match fixedNumber? 2 rest with
      | some (hours, ':' :: rest) =>
        match fixedNumber? 2 rest with
        | some (minutes, []) => decide (hours ≤ 23) && decide (minutes ≤ 59)
        | _ => false
      | _ => false

/-- A date, a time, or a date and a time with or without an offset. -/
def isDateTime (cs : List Char) : Bool :=
  match afterDate? cs with
  | some [] => true
  | some (separator :: cs) =>
    (separator == 'T' || separator == 't' || separator == ' ') && (afterTime? cs).any isOffset
  | none => afterTime? cs == some []

/-! ## The scalar of a run -/

def isScalarChar (c : Char) : Bool :=
  c.isAlphanum || c == '+' || c == '-' || c == '_' || c == '.' || c == ':'

def scalar? (cs : List Char) : Option Scalar :=
  if cs = "true".toList then some (.boolean true)
  else if cs = "false".toList then some (.boolean false)
  else
    match integer? cs with
    | some value => some (ofInteger value)
    | none =>
      match float? cs with
      | some value => some (ofFloat cs value)
      | none => if isDateTime cs then some .dateTime else none

/-- A date may be followed by a time after a space. -/
def timeAfterDate (cs : List Char) : List Char × List Char :=
  match cs with
  | ' ' :: rest =>
    if rest.head?.any Char.isDigit then
      (' ' :: rest.takeWhile isScalarChar, rest.dropWhile isScalarChar)
    else ([], cs)
  | cs => ([], cs)

def readScalar (cs : List Char) : Option (Scalar × List Char) :=
  let run := cs.takeWhile isScalarChar
  let rest := cs.dropWhile isScalarChar
  let (more, rest) := if afterDate? run = some [] then timeAfterDate rest else ([], rest)
  (scalar? (run ++ more)).map fun value => (value, rest)

end Reckoner.Toml
