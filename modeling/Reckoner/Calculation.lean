import Reckoner.Expr.Evaluate
import Reckoner.Expr.OfTokens
import Reckoner.ResultText
import Reckoner.Token.Scan

/-!
# Calculations

From a line of text to a result or a fault.  White space around the line is ignored, and a blank
line is zero.  The limits are checked before the work that they bound.
-/

namespace Reckoner

/-- Bounds on what is accepted. -/
structure Limits where
  /-- The longest expression, in characters. -/
  maxInputLength : Nat := 1000
  /-- The highest tree, and the deepest nesting of brackets, minuses, exponents and arguments. -/
  maxDepth : Nat := 64
deriving DecidableEq, Repr

structure Result where
  value : Binary64
  text : String
deriving DecidableEq

def Expr.ofText (text : String) (maxDepth : Nat) : Except Fault Expr := do
  let tokens ← (Token.ofText text).mapError .character
  Expr.ofTokens tokens maxDepth

/-- The result of an expression without white space around it. -/
def calculate (expression : String) (limits : Limits) : Except Fault Result :=
  let length := expression.length
  if length = 0 then .ok ⟨.zero, "0"⟩
  else if length > limits.maxInputLength then .error (.tooLong length limits.maxInputLength)
  else do
    let expr ← Expr.ofText expression limits.maxDepth
    let value ← (expr.evaluate .standard).mapError .evaluation
    let text ← value.resultText.mapError .evaluation
    .ok ⟨value, text⟩

/-- An expression and what came of it. -/
structure Calculation where
  /-- The expression without the white space around it. -/
  expression : String
  outcome : Except Fault Result

namespace Calculation

def ofText (input : String) (limits : Limits) : Calculation :=
  let expression := String.ofList (Text.trim input.toList)
  ⟨expression, calculate expression limits⟩

def isSuccess (c : Calculation) : Bool :=
  match c.outcome with
  | .ok _ => true
  | .error _ => false

def display (c : Calculation) : String :=
  match c.outcome with
  | .ok result => result.text
  | .error fault => fault.message

def faultKind? (c : Calculation) : Option FaultKind :=
  match c.outcome with
  | .ok _ => none
  | .error fault => some fault.kind

end Calculation

end Reckoner
