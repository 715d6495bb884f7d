import Reckoner.Elementary.Circular
import Reckoner.Elementary.Power
import Reckoner.Vocabulary.Basic

/-!
# The Standard Vocabulary

Two constants and ten functions.  The guards of the functions compare numbers, so both zeros pass
or fail alike.
-/

namespace Reckoner

namespace Binary64

/-! ## Constants -/

def circleConstant : Binary64 := ofDecimal false 3141592653589793 (-15)

def naturalBase : Binary64 := ofDecimal false 2718281828459045 (-15)

/-! ## Guarded operations -/

def squareRoot (x : Binary64) : Evaluation :=
  if x.less zero then .error (.outsideDomain .squareRoot) else .ok x.sqrt

/-- The logarithm of a positive number. -/
def logarithm (x : Binary64) : Evaluation :=
  if x.lessOrEqual zero then .error (.outsideDomain .logarithm) else .ok x.log

/-- The power, shared by the operator and the function: zero has no negative powers, and a negative
number has powers to whole exponents only. -/
def power (base exponent : Binary64) : Evaluation :=
  if base.isZero && exponent.less zero then .error .divisionByZero
  else if base.less zero && !exponent.isIntegral then .error (.outsideDomain .fractionalPower)
  else .ok (base.pow exponent)

/-- The quotient, unless the divisor is zero. -/
def quotient (dividend divisor : Binary64) : Evaluation :=
  if divisor.isZero then .error .divisionByZero else .ok (dividend.div divisor)

end Binary64

namespace Vocabulary

def standardFunctions : List Function :=
  [.unary "sin" fun x => .ok x.sin,
    .unary "cos" fun x => .ok x.cos,
    .unary "tan" fun x => .ok x.tan,
    .unary "sqrt" Binary64.squareRoot,
    .unary "log" Binary64.logarithm,
    .unary "abs" fun x => .ok x.abs,
    .unary "round" fun x => .ok x.roundTiesToEven,
    .binary "pow" Binary64.power,
    .optional "int" Binary64.trunc,
    .optional "float" id]

def standard : Vocabulary where
  entries :=
    ("pi", .constant .circleConstant) :: ("e", .constant .naturalBase) ::
      standardFunctions.map fun function => (function.name, .function function)

end Vocabulary

end Reckoner
