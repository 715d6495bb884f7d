import Reckoner.Expr.OfTokens

/-!
# The Grammar of Expressions

The phrases of the reference grammar as data, one type for each of its symbols and one constructor
for each of its productions.  Sums and products recurse on the left.  A phrase has the lexemes that
it is written with and the expression that it stands for; brackets are phrases, but leave nothing
in the expression.

The nesting of a phrase counts the constructs around its most enclosed number or name: brackets,
the arguments of calls, minuses over their operand and carets over their exponent.  Neither the
nesting nor the height of the tree exceeds the number of lexemes.
-/

namespace Reckoner.Grammar

/-! ## Phrases -/

inductive SumMark where
  | plus
  | minus

inductive ProductMark where
  | star
  | slash

mutual

/-- A product, or a sum and a product with a plus or a minus between them. -/
inductive Sum where
  | single (term : Product)
  | more (left : Sum) (mark : SumMark) (right : Product)

/-- A negation, or a product and a negation with a star or a slash between them. -/
inductive Product where
  | single (factor : Negation)
  | more (left : Product) (mark : ProductMark) (right : Negation)

/-- A power, or a minus before a negation. -/
inductive Negation where
  | plain (power : Power)
  | minus (operand : Negation)

/-- An operand, or an operand with a negation for its exponent. -/
inductive Power where
  | plain (base : Operand)
  | raised (base : Operand) (exponent : Negation)

/-- A number, a name, a call or a bracketed sum. -/
inductive Operand where
  | number (value : Binary64)
  | name (text : String)
  | bareCall (function : String)
  | call (function : String) (arguments : Arguments)
  | group (sum : Sum)

/-- Sums with commas between them, at least one. -/
inductive Arguments where
  | last (sum : Sum)
  | more (first : Sum) (rest : Arguments)

end

/-! ## Lexemes -/

def SumMark.lexeme : SumMark → Lexeme
  | plus => .plus
  | minus => .minus

def ProductMark.lexeme : ProductMark → Lexeme
  | star => .star
  | slash => .slash

mutual

/-- The lexemes of a sum, and so of the phrases in it. -/
def Sum.lexemes : Sum → List Lexeme
  | .single term => term.lexemes
  | .more left mark right => left.lexemes ++ mark.lexeme :: right.lexemes

def Product.lexemes : Product → List Lexeme
  | .single factor => factor.lexemes
  | .more left mark right => left.lexemes ++ mark.lexeme :: right.lexemes

def Negation.lexemes : Negation → List Lexeme
  | .plain power => power.lexemes
  | .minus operand => .minus :: operand.lexemes

def Power.lexemes : Power → List Lexeme
  | .plain base => base.lexemes
  | .raised base exponent => base.lexemes ++ .caret :: exponent.lexemes

def Operand.lexemes : Operand → List Lexeme
  | .number value => [.number value]
  | .name text => [.name text]
  | .bareCall function => [.name function, .opening, .closing]
  | .call function arguments => .name function :: .opening :: (arguments.lexemes ++ [.closing])
  | .group sum => .opening :: (sum.lexemes ++ [.closing])

def Arguments.lexemes : Arguments → List Lexeme
  | .last sum => sum.lexemes
  | .more first rest => first.lexemes ++ .comma :: rest.lexemes

end

/-! ## Expressions -/

def SumMark.operator : SumMark → Operator
  | plus => .add
  | minus => .sub

def ProductMark.operator : ProductMark → Operator
  | star => .mul
  | slash => .div

mutual

/-- The expression of a sum, and so of the phrases in it. -/
def Sum.expr : Sum → Expr
  | .single term => term.expr
  | .more left mark right => .binary mark.operator left.expr right.expr

def Product.expr : Product → Expr
  | .single factor => factor.expr
  | .more left mark right => .binary mark.operator left.expr right.expr

def Negation.expr : Negation → Expr
  | .plain power => power.expr
  | .minus operand => .neg operand.expr

def Power.expr : Power → Expr
  | .plain base => base.expr
  | .raised base exponent => .binary .pow base.expr exponent.expr

def Operand.expr : Operand → Expr
  | .number value => .number value
  | .name text => .name text
  | .bareCall function => .call function []
  | .call function arguments => .call function arguments.exprs
  | .group sum => sum.expr

def Arguments.exprs : Arguments → List Expr
  | .last sum => [sum.expr]
  | .more first rest => first.expr :: rest.exprs

end

/-- The lexemes are those of a sum that stands for the expression. -/
def Derives (lexemes : List Lexeme) (expr : Expr) : Prop :=
  ∃ sum : Sum, sum.lexemes = lexemes ∧ sum.expr = expr

/-- A whole input: a sum and the end. -/
def Sentence (lexemes : List Lexeme) : Prop :=
  ∃ sum : Sum, lexemes = sum.lexemes ++ [.finish]

/-- The tokens write the lexemes, none of which is the end, and then the end. -/
def Writes (tokens : List Token) (lexemes : List Lexeme) : Prop :=
  tokens.map Token.lexeme = lexemes ++ [.finish] ∧ .finish ∉ lexemes

/-! ## Nesting -/

mutual

/-- One more than the number of constructs around the most enclosed number or name of a sum. -/
def Sum.nesting : Sum → Nat
  | .single term => term.nesting
  | .more left _ right => max left.nesting right.nesting

def Product.nesting : Product → Nat
  | .single factor => factor.nesting
  | .more left _ right => max left.nesting right.nesting

def Negation.nesting : Negation → Nat
  | .plain power => power.inner + 1
  | .minus operand => operand.nesting + 1

/-- The number of constructs around the most enclosed number or name of a power. -/
def Power.inner : Power → Nat
  | .plain base => base.inner
  | .raised base exponent => max base.inner exponent.nesting

def Operand.inner : Operand → Nat
  | .number _ => 0
  | .name _ => 0
  | .bareCall _ => 0
  | .call _ arguments => arguments.nesting
  | .group sum => sum.nesting

def Arguments.nesting : Arguments → Nat
  | .last sum => sum.nesting
  | .more first rest => max first.nesting rest.nesting

end

mutual

/-- Neither the nesting nor the height exceeds the number of lexemes. -/
theorem Sum.bounded : ∀ sum : Sum,
    sum.nesting ≤ sum.lexemes.length ∧ sum.expr.depth ≤ sum.lexemes.length
  | .single term => by
    rw [Sum.nesting, Sum.expr, Sum.lexemes]
    exact term.bounded
  | .more left mark right => by
    have hleft := left.bounded
    have hright := right.bounded
    simp only [Sum.nesting, Sum.expr, Expr.depth, Sum.lexemes, List.length_append,
      List.length_cons]
    omega

theorem Product.bounded : ∀ product : Product,
    product.nesting ≤ product.lexemes.length ∧ product.expr.depth ≤ product.lexemes.length
  | .single factor => by
    rw [Product.nesting, Product.expr, Product.lexemes]
    exact factor.bounded
  | .more left mark right => by
    have hleft := left.bounded
    have hright := right.bounded
    simp only [Product.nesting, Product.expr, Expr.depth, Product.lexemes, List.length_append,
      List.length_cons]
    omega

theorem Negation.bounded : ∀ negation : Negation,
    negation.nesting ≤ negation.lexemes.length ∧ negation.expr.depth ≤ negation.lexemes.length
  | .plain power => by
    have h := power.bounded
    simp only [Negation.nesting, Negation.expr, Negation.lexemes]
    omega
  | .minus operand => by
    have h := operand.bounded
    simp only [Negation.nesting, Negation.expr, Expr.depth, Negation.lexemes, List.length_cons]
    omega

theorem Power.bounded : ∀ power : Power,
    power.inner < power.lexemes.length ∧ power.expr.depth ≤ power.lexemes.length
  | .plain base => by
    rw [Power.inner, Power.expr, Power.lexemes]
    exact base.bounded
  | .raised base exponent => by
    have hbase := base.bounded
    have hexponent := exponent.bounded
    simp only [Power.inner, Power.expr, Expr.depth, Power.lexemes, List.length_append,
      List.length_cons]
    omega

theorem Operand.bounded : ∀ operand : Operand,
    operand.inner < operand.lexemes.length ∧ operand.expr.depth ≤ operand.lexemes.length
  | .number _ => by simp [Operand.inner, Operand.expr, Expr.depth, Operand.lexemes]
  | .name _ => by simp [Operand.inner, Operand.expr, Expr.depth, Operand.lexemes]
  | .bareCall _ => by
    simp [Operand.inner, Operand.expr, Expr.depth, Expr.depthOfAll, Operand.lexemes]
  | .call _ arguments => by
    have h := arguments.bounded
    simp only [Operand.inner, Operand.expr, Expr.depth, Operand.lexemes, List.length_append,
      List.length_cons]
    omega
  | .group sum => by
    have h := sum.bounded
    simp only [Operand.inner, Operand.expr, Operand.lexemes, List.length_append, List.length_cons]
    omega

theorem Arguments.bounded : ∀ arguments : Arguments,
    arguments.nesting ≤ arguments.lexemes.length ∧
      Expr.depthOfAll arguments.exprs ≤ arguments.lexemes.length
  | .last sum => by
    have h := sum.bounded
    simp only [Arguments.nesting, Arguments.exprs, Expr.depthOfAll, Arguments.lexemes]
    omega
  | .more first rest => by
    have hfirst := first.bounded
    have hrest := rest.bounded
    simp only [Arguments.nesting, Arguments.exprs, Expr.depthOfAll, Arguments.lexemes,
      List.length_append, List.length_cons]
    omega

end

/-! ## Operands as larger phrases -/

namespace Operand

def negation (operand : Operand) : Negation := .plain (.plain operand)

def product (operand : Operand) : Product := .single operand.negation

def sum (operand : Operand) : Sum := .single operand.product

def neg (operand : Operand) : Sum := .single (.single (.minus operand.negation))

variable (operand : Operand)

theorem lexemes_sum : operand.sum.lexemes = operand.lexemes := by
  simp only [sum, product, negation, Sum.lexemes, Product.lexemes, Negation.lexemes, Power.lexemes]

theorem expr_sum : operand.sum.expr = operand.expr := by
  simp only [sum, product, negation, Sum.expr, Product.expr, Negation.expr, Power.expr]

theorem nesting_sum : operand.sum.nesting = operand.inner + 1 := by
  simp only [sum, product, negation, Sum.nesting, Product.nesting, Negation.nesting, Power.inner]

theorem lexemes_neg : operand.neg.lexemes = .minus :: operand.lexemes := by
  simp only [neg, negation, Sum.lexemes, Product.lexemes, Negation.lexemes, Power.lexemes]

theorem expr_neg : operand.neg.expr = .neg operand.expr := by
  simp only [neg, negation, Sum.expr, Product.expr, Negation.expr, Power.expr]

theorem nesting_neg : operand.neg.nesting = operand.inner + 2 := by
  simp only [neg, negation, Sum.nesting, Product.nesting, Negation.nesting, Power.inner]

end Operand

end Reckoner.Grammar
