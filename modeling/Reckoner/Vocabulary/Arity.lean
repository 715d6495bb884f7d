/-!
# Arities

How many arguments a function takes: a fixed number, or any number between two bounds.
-/

namespace Reckoner

inductive Arity where
  /-- That many. -/
  | exactly (count : Nat)
  /-- From the first to the second, both included. -/
  | between (least most : Nat)
deriving DecidableEq, Repr

namespace Arity

def least : Arity → Nat
  | exactly count => count
  | between least _ => least

def most : Arity → Nat
  | exactly count => count
  | between _ most => most

def accepts (arity : Arity) (count : Nat) : Bool :=
  decide (arity.least ≤ count) && decide (count ≤ arity.most)

def text : Arity → String
  | exactly count => toString count
  | between least most => toString least ++ " to " ++ toString most

end Arity

end Reckoner
