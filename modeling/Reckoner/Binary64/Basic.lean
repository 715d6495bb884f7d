import Reckoner.Numeral.Powers

/-!
# Double-Precision Numbers

A double is not-a-number, an infinity, or a sign with a magnitude.  Every finite double is a whole
number of *units*, the unit being the least positive double, 2^-1074, so a magnitude is a natural
number together with the two facts that make it a double: it is below 2^1024, and it has at most
53 significant bits.  Both zeros exist; not-a-number carries no payload.

Equality of this type tells the two zeros apart and identifies not-a-number with itself.  The
comparisons `equals`, `less` and `lessOrEqual` are those of the arithmetic: the zeros are equal,
and nothing holds of not-a-number.
-/

namespace Reckoner

/-- The number of units in one, as a power of two. -/
def Binary64.unitExponent : Nat := 1074

def Binary64.unitsPerOne : Nat := twoPow Binary64.unitExponent

/-- The least power of two that is too large for a finite double, 2^1024, in units. -/
def Binary64.overflow : Nat := twoPow (1024 + Binary64.unitExponent)

theorem Binary64.overflow_pos : 0 < Binary64.overflow := twoPow_pos _

/-- The distance between neighbouring doubles whose unit count has the size of `n`: the last of the
53 leading bits, and one unit below the normal range. -/
def Binary64.spacing (n : Nat) : Nat := twoPow (n.log2 - 52)

/-- The absolute value of a finite double, in units of 2^-1074. -/
structure Magnitude where
  /-- How many units. -/
  units : Nat
  /-- Infinity begins at 2^1024. -/
  below : units < Binary64.overflow
  /-- At most 53 significant bits. -/
  aligned : Binary64.spacing units ∣ units
deriving DecidableEq

/-- A double-precision number. -/
inductive Binary64 where
  /-- Not a number. -/
  | nan
  /-- An infinity with its sign. -/
  | infinite (negative : Bool)
  /-- A finite number, zeros included, as sign and magnitude. -/
  | finite (negative : Bool) (magnitude : Magnitude)
deriving DecidableEq

namespace Magnitude

def zero : Magnitude where
  units := 0
  below := Binary64.overflow_pos
  aligned := ⟨0, rfl⟩

instance : Inhabited Magnitude := ⟨zero⟩

end Magnitude

namespace Binary64

/-! ## Signs and classes -/

def zero : Binary64 := .finite false .zero

instance : Inhabited Binary64 := ⟨zero⟩

def isFinite : Binary64 → Bool
  | .finite .. => true
  | _ => false

def isZero : Binary64 → Bool
  | .finite _ m => m.units == 0
  | _ => false

/-- The number with its sign turned; not-a-number stays. -/
def neg : Binary64 → Binary64
  | .nan => .nan
  | .infinite n => .infinite (!n)
  | .finite n m => .finite (!n) m

def abs : Binary64 → Binary64
  | .nan => .nan
  | .infinite _ => .infinite false
  | .finite _ m => .finite false m

/-- A finite number as a signed count of units. -/
def signedUnits (negative : Bool) (m : Magnitude) : Int :=
  if negative then -(m.units : Int) else m.units

/-! ## Comparisons -/

/-- Equality of numbers: the zeros are equal, not-a-number equals nothing. -/
def equals : Binary64 → Binary64 → Bool
  | .finite n m, .finite n' m' => signedUnits n m == signedUnits n' m'
  | .infinite n, .infinite n' => n == n'
  | _, _ => false

/-- Strict order of numbers, false as soon as one side is not a number. -/
def less : Binary64 → Binary64 → Bool
  | .finite n m, .finite n' m' => decide (signedUnits n m < signedUnits n' m')
  | .finite .., .infinite n' => !n'
  | .infinite n, .finite .. => n
  | .infinite n, .infinite n' => n && !n'
  | _, _ => false

/-- Order of numbers, false as soon as one side is not a number. -/
def lessOrEqual (x y : Binary64) : Bool := less x y || equals x y

end Binary64

end Reckoner
