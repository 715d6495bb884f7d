import Reckoner.Binary64.Rounding

/-!
# Whole Numbers among the Doubles

Which doubles are whole numbers, and the two ways to make one: dropping the fraction and going to
the nearest, ties to the even neighbour.  Both keep the sign, also of a result that is zero.
-/

namespace Reckoner.Binary64

def isIntegral : Binary64 → Bool
  | .finite _ m => m.units % unitsPerOne == 0
  | _ => false

def trunc : Binary64 → Binary64
  | .finite n m => ofQuotient n (m.units / unitsPerOne * unitsPerOne) 1
  | x => x

def roundTiesToEven : Binary64 → Binary64
  | .finite n m => ofQuotient n (divNearest m.units unitsPerOne * unitsPerOne) 1
  | x => x

end Reckoner.Binary64
