import Reckoner.Expr.Basic
import Reckoner.Fault

/-!
# Measured Expressions

A `Node` is an expression with its height at hand, so that a parser can refuse a tree that is too
high as soon as it would make one, without walking through it again.
-/

namespace Reckoner

/-- An expression and its height. -/
structure Node where
  expr : Expr
  height : Nat
  height_eq : height = expr.depth

namespace Node

def number (value : Binary64) : Node := ⟨.number value, 1, rfl⟩

def name (text : String) : Node := ⟨.name text, 1, rfl⟩

def neg (operand : Node) : Node :=
  ⟨.neg operand.expr, 1 + operand.height, by rw [operand.height_eq, Expr.depth]⟩

def binary (operator : Operator) (left right : Node) : Node :=
  ⟨.binary operator left.expr right.expr, 1 + max left.height right.height, by
    rw [left.height_eq, right.height_eq, Expr.depth]⟩

def maxHeight : List Node → Nat
  | [] => 0
  | first :: rest => max first.height (maxHeight rest)

theorem maxHeight_eq (nodes : List Node) :
    maxHeight nodes = Expr.depthOfAll (nodes.map Node.expr) := by
  induction nodes with
  | nil => rfl
  | cons first rest ih => rw [maxHeight, List.map_cons, Expr.depthOfAll, first.height_eq, ih]

def call (function : String) (arguments : List Node) : Node :=
  ⟨.call function (arguments.map Node.expr), 1 + maxHeight arguments, by
    rw [maxHeight_eq, Expr.depth]⟩

/-- The node, unless it is higher than the limit. -/
def within (limit : Nat) (node : Node) : Except Fault Node :=
  if node.height > limit then .error (.tooDeep limit) else .ok node

end Node

end Reckoner
