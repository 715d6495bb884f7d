import Reckoner.Expr.Basic
import Reckoner.Vocabulary.Standard

/-!
# Working out Expressions

Operands and arguments are worked out from left to right, before the operation that needs them; of
a call, the name and the number of arguments are checked first.  Every value on the way must be
finite.
-/

namespace Reckoner

def Operator.apply : Operator → Binary64 → Binary64 → Evaluation
  | add, x, y => .ok (x.add y)
  | sub, x, y => .ok (x.sub y)
  | mul, x, y => .ok (x.mul y)
  | div, x, y => x.quotient y
  | pow, x, y => x.power y

def Binary64.finiteOnly (value : Binary64) : Evaluation :=
  if value.isFinite then .ok value else .error .nonFinite

namespace Expr

/-- The function that a call names, if it takes that many arguments. -/
def callee (vocabulary : Vocabulary) (text : String) (given : Nat) : Except EvalFault Function :=
  match vocabulary.function? text with
  | none => .error (.unknownName text)
  | some function =>
    if function.arity.accepts given then .ok function
    else .error (.arityMismatch function.name function.arity given)

mutual

def evaluate (vocabulary : Vocabulary) : Expr → Evaluation
  | number value => value.finiteOnly
  | name text =>
    match vocabulary.constant? text with
    | some value => value.finiteOnly
    | none => .error (.unknownName text)
  | neg operand => do
    let value ← operand.evaluate vocabulary
    value.neg.finiteOnly
  | binary operator left right => do
    let x ← left.evaluate vocabulary
    let y ← right.evaluate vocabulary
    let value ← operator.apply x y
    value.finiteOnly
  | call text arguments => do
    let function ← callee vocabulary text arguments.length
    let values ← evaluateAll vocabulary arguments
    let value ← function.apply values
    value.finiteOnly

def evaluateAll (vocabulary : Vocabulary) : List Expr → Except EvalFault (List Binary64)
  | [] => .ok []
  | first :: rest => do
    let value ← first.evaluate vocabulary
    let values ← evaluateAll vocabulary rest
    .ok (value :: values)

end

end Expr

end Reckoner
