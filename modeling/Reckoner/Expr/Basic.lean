import Reckoner.Numeral.Layout

/-!
# Expressions

The tree of an expression: numbers, names, calls, negations and the five binary operations.
Brackets leave no trace in it.
-/

namespace Reckoner

/-- A binary operation. -/
inductive Operator where
  | add
  | sub
  | mul
  | div
  | pow
deriving DecidableEq, Repr

def Operator.symbol : Operator → Char
  | add => '+'
  | sub => '-'
  | mul => '*'
  | div => '/'
  | pow => '^'

/-- An expression. -/
inductive Expr where
  | number (value : Binary64)
  /-- A constant, looked up by its name. -/
  | name (text : String)
  | call (function : String) (arguments : List Expr)
  | neg (operand : Expr)
  | binary (operator : Operator) (left right : Expr)

namespace Expr

instance : Inhabited Expr := ⟨.number .zero⟩

mutual

/-- The height of the tree; that of a number or a name is one. -/
def depth : Expr → Nat
  | number _ => 1
  | name _ => 1
  | call _ arguments => 1 + depthOfAll arguments
  | neg operand => 1 + operand.depth
  | binary _ left right => 1 + max left.depth right.depth

/-- The greatest height among some trees, zero if there are none. -/
def depthOfAll : List Expr → Nat
  | [] => 0
  | first :: rest => max first.depth (depthOfAll rest)

end

mutual

/-- The expression with a bracket around every operation. -/
def text : Expr → String
  | number value => value.text
  | name text => text
  | call function arguments => function ++ "(" ++ textOfAll arguments ++ ")"
  | neg operand => "(-" ++ operand.text ++ ")"
  | binary operator left right =>
    "(" ++ left.text ++ " " ++ operator.symbol.toString ++ " " ++ right.text ++ ")"

def textOfAll : List Expr → String
  | [] => ""
  | first :: rest => first.text ++ textOfMore rest

def textOfMore : List Expr → String
  | [] => ""
  | first :: rest => ", " ++ first.text ++ textOfMore rest

end

end Expr

end Reckoner
