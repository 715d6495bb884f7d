import Reckoner.Expr.Node

/-!
# From Tokens to Expressions

The grammar, loosest first: sums and differences, products and quotients, negations, powers, and
operands, which are numbers, names, calls and bracketed sums.  Sums and products group to the left
and powers to the right, and the exponent of a power may have a minus of its own, so that `-2^2` is
`-(2^2)` and `2^-1` needs no bracket.

Every way from a sum to a sum within it leads through a negation, and so do the minuses and the
exponents within one.  The budget counts how many more negations may be open at once; it bounds the
recursion, and beside it the height of every tree that is made is held to the same limit.  Reading
is a function of what is left of the budget, so it needs no other bound: a chain of operators
or of arguments goes round at most once for each token that is still ahead, and once more.
-/

namespace Reckoner

/-! ## The place in the tokens -/

/-- A place in a list of tokens. -/
structure Cursor where
  /-- The token that is looked at. -/
  current : Token
  /-- Those that follow it. -/
  ahead : List Token
  /-- How many have been taken. -/
  taken : Nat

namespace Cursor

/-- The place after the current token.  The end is never passed, and where the tokens stop without
an end, the last one is seen for ever. -/
def advance (c : Cursor) : Cursor :=
  if c.current.lexeme = .finish then c
  else
    match c.ahead with
    | [] => { c with taken := c.taken + 1 }
    | next :: rest => ⟨next, rest, c.taken + 1⟩

def unexpected (c : Cursor) (wanted : Wanted) : Fault :=
  .grammar ⟨c.current.position, wanted, c.current.lexeme⟩

def passClosing (c : Cursor) (wanted : Wanted) : Except Fault Cursor :=
  if c.current.lexeme = .closing then .ok c.advance else .error (c.unexpected wanted)

/-- No chain that starts here has more links. -/
def rounds (c : Cursor) : Nat := c.ahead.length + 1

end Cursor

/-- A way to read something at a place: what is read, and the place after it. -/
abbrev Reading (α : Type) := Cursor → Except Fault (α × Cursor)

namespace Reading

variable (limit : Nat)

/-! ## Chains -/

def sumOperator? : Lexeme → Option Operator
  | .plus => some .add
  | .minus => some .sub
  | _ => none

def productOperator? : Lexeme → Option Operator
  | .star => some .mul
  | .slash => some .div
  | _ => none

/-- The rest of a chain of operations that group to the left, `left` being what was read so far. -/
def chain (operator? : Lexeme → Option Operator) (operand : Reading Node) :
    (rounds : Nat) → (left : Node) → Reading Node
  | 0, left, c => .ok (left, c)
  | rounds + 1, left, c =>
    match operator? c.current.lexeme with
    | none => .ok (left, c)
    | some operator => do
      let (right, c) ← operand c.advance
      let node ← (Node.binary operator left right).within limit
      chain operator? operand rounds node c

/-- Operands in a chain of operations. -/
def chained (operator? : Lexeme → Option Operator) (operand : Reading Node) : Reading Node :=
  fun c => do
    let (first, c) ← operand c
    chain limit operator? operand c.rounds first c

def arguments (sum : Reading Node) : (rounds : Nat) → Reading (List Node)
  | 0, c => .ok ([], c)
  | rounds + 1, c => do
    let (first, c) ← sum c
    if c.current.lexeme = .comma then
      let (rest, c) ← arguments sum rounds c.advance
      .ok (first :: rest, c)
    else
      .ok ([first], c)

/-! ## The levels of the grammar, over a way to read negations -/

def sum (negation : Reading Node) : Reading Node :=
  chained limit sumOperator? (chained limit productOperator? negation)

def call (negation : Reading Node) (function : String) : Reading Node := fun c => do
  let (arguments, c) ←
    if c.current.lexeme = .closing then .ok ([], c)
    else arguments (sum limit negation) c.rounds c
  let c ← c.passClosing .argumentEnd
  let node ← (Node.call function arguments).within limit
  .ok (node, c)

def group (negation : Reading Node) : Reading Node := fun c => do
  let (node, c) ← sum limit negation c
  let c ← c.passClosing .groupEnd
  .ok (node, c)

/-- A number, a constant, a call or a bracket. -/
def operand (negation : Reading Node) : Reading Node := fun c =>
  match c.current.lexeme with
  | .number value => .ok (.number value, c.advance)
  | .name text =>
    let c := c.advance
    if c.current.lexeme = .opening then call limit negation text c.advance
    else .ok (.name text, c)
  | .opening => group limit negation c.advance
  | _ => .error (c.unexpected .operand)

/-- An operand, with an exponent if a caret follows. -/
def power (negation : Reading Node) : Reading Node := fun c => do
  let (base, c) ← operand limit negation c
  if c.current.lexeme = .caret then
    let (exponent, c) ← negation c.advance
    let node ← (Node.binary .pow base exponent).within limit
    .ok (node, c)
  else
    .ok (base, c)

/-! ## The recursion -/

/-- A power with any number of minuses before it, within a budget. -/
def negation : (budget : Nat) → Reading Node
  | 0, _ => .error (.tooDeep limit)
  | budget + 1, c =>
    if c.current.lexeme = .minus then do
      let (operand, c) ← negation budget c.advance
      let node ← operand.neg.within limit
      .ok (node, c)
    else
      power limit (negation budget) c

def whole : Reading Node := fun c => do
  let (node, c) ← sum limit (negation limit limit) c
  if c.current.lexeme = .finish then .ok (node, c)
  else .error (c.unexpected .expressionEnd)

end Reading

/-- The expression that the tokens write, with both the height of its tree and the nesting of the
tokens held to the limit.  Without any token, an operand is missing at the end. -/
def Expr.ofTokens (tokens : List Token) (limit : Nat) : Except Fault Expr :=
  match tokens with
  | [] => .error (.grammar ⟨0, .operand, .finish⟩)
  | first :: rest => do
    let (node, _) ← Reading.whole limit ⟨first, rest, 0⟩
    .ok node.expr

end Reckoner
