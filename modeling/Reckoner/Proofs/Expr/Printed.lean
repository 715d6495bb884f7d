import Reckoner.Proofs.Lexing.Spelling
import Reckoner.Proofs.Numeral.Layout
import Reckoner.Proofs.Stages

/-!
# Printed Expressions

The text of an expression with a bracket around every operation.  Each expression whose numbers are
finite with a clear sign and whose names are names is printed as one operand of the grammar, so it
may stand at every place of a larger one, and no two lexemes of its text run together.  A minus in a
bracket, or an exponent in one, adds two to the nesting where it adds one to the height of the tree.

So the text is read as the expression again if the limit is at least twice the height less one, and
different expressions have different texts.
-/

namespace Reckoner

open Grammar

/-! ## Operations on operands -/

def Operator.lexeme : Operator → Lexeme
  | add => .plus
  | sub => .minus
  | mul => .star
  | div => .slash
  | pow => .caret

theorem Operator.ofMark?_symbol (operator : Operator) :
    Lexeme.ofMark? operator.symbol = some operator.lexeme := by
  cases operator <;> rfl

namespace Grammar.Operand

def binary (left : Operand) (right : Operand) : Operator → Sum
  | .add => .more left.sum .plus right.product
  | .sub => .more left.sum .minus right.product
  | .mul => .single (.more left.product .star right.negation)
  | .div => .single (.more left.product .slash right.negation)
  | .pow => .single (.single (.plain (.raised left right.negation)))

variable (left right : Operand) (operator : Operator)

theorem lexemes_binary :
    (binary left right operator).lexemes = left.lexemes ++ operator.lexeme :: right.lexemes := by
  cases operator <;>
    simp only [binary, sum, product, negation, Sum.lexemes, Product.lexemes, Negation.lexemes,
      Power.lexemes, SumMark.lexeme, ProductMark.lexeme, Operator.lexeme]

theorem expr_binary :
    (binary left right operator).expr = .binary operator left.expr right.expr := by
  cases operator <;>
    simp only [binary, sum, product, negation, Sum.expr, Product.expr, Negation.expr, Power.expr,
      SumMark.operator, ProductMark.operator]

/-- The exponent of a power is enclosed once more than the terms and factors of the others. -/
theorem nesting_binary_le :
    (binary left right operator).nesting ≤ max (left.inner + 1) (right.inner + 2) := by
  cases operator <;>
    simp only [binary, sum, product, negation, Sum.nesting, Product.nesting, Negation.nesting,
      Power.inner] <;>
    omega

end Grammar.Operand

/-! ## Printable expressions -/

/-- A letter or an underscore, then letters, digits and underscores. -/
def IsName (text : String) : Prop :=
  ∃ first rest, text.toList = first :: rest ∧ Lexeme.startsName first ∧
    ∀ c ∈ rest, Lexeme.continuesName c

namespace Expr

mutual

/-- All numbers are finite with a clear sign, and all names are names. -/
def Printable : Expr → Prop
  | number value => ∃ m, value = .finite false m
  | name text => IsName text
  | call function arguments => IsName function ∧ AllPrintable arguments
  | neg operand => operand.Printable
  | binary _ left right => left.Printable ∧ right.Printable

def AllPrintable : List Expr → Prop
  | [] => True
  | first :: rest => first.Printable ∧ AllPrintable rest

end

/-- The text of the expression has the lexemes of the operand, which stands for the expression and
is nested at most twice as deeply as the expression is high. -/
structure Prints (expr : Expr) (operand : Operand) : Prop where
  expr_eq : operand.expr = expr
  lexemes : Lexeme.ofChars expr.text.toList = .ok operand.lexemes
  nesting : operand.inner + 2 ≤ 2 * expr.depth

structure PrintsAll (exprs : List Expr) (arguments : Arguments) : Prop where
  exprs_eq : arguments.exprs = exprs
  lexemes : Lexeme.ofChars (textOfAll exprs).toList = .ok arguments.lexemes
  nesting : arguments.nesting + 1 ≤ 2 * depthOfAll exprs

section

variable {expr left right : Expr} {operand l r : Operand}

theorem prints_number (m : Magnitude) :
    Prints (.number (.finite false m)) (.number (.finite false m)) := by
  obtain ⟨n, hvalid, hchars, hvalue⟩ := Numeral.exists_positional (Numeral.decimalOf m)
  have hlexemes := (Spells.number hvalid).ofChars
  rw [hchars, hvalue, Numeral.decimalOf_toBinary64] at hlexemes
  refine ⟨by rw [Operand.expr], ?_, by simp [Operand.inner, depth]⟩
  rw [text, Binary64.text, String.toList_ofList, Numeral.signText_false_append, hlexemes,
    Operand.lexemes]

theorem ofChars_name {text : String} (h : IsName text) :
    Lexeme.ofChars text.toList = .ok [.name text] := by
  obtain ⟨first, rest, htext, hfirst, hrest⟩ := h
  have hlexemes := (Spells.name hfirst hrest).ofChars
  rw [← htext, String.ofList_toList] at hlexemes
  exact hlexemes

theorem prints_name {text : String} (h : IsName text) : Prints (.name text) (.name text) := by
  refine ⟨by rw [Operand.expr], ?_, by simp [Operand.inner, depth]⟩
  rw [Expr.text, ofChars_name h, Operand.lexemes]

theorem Prints.neg (h : Prints expr operand) : Prints (.neg expr) (.group operand.neg) := by
  have hexpr := h.expr_eq
  have hnesting := h.nesting
  constructor
  · rw [Operand.expr, Operand.expr_neg, hexpr]
  · have htext : (Expr.neg expr).text.toList = '(' :: ('-' :: expr.text.toList ++ [')']) := by
      rw [text]
      simp
    rw [htext, Operand.lexemes, Operand.lexemes_neg]
    exact Lexeme.ofChars_group (Lexeme.ofChars_mark_eq_ok rfl h.lexemes)
  · rw [Operand.inner, Operand.nesting_neg, depth]
    omega

theorem Prints.binary (operator : Operator) (hl : Prints left l) (hr : Prints right r) :
    Prints (.binary operator left right) (.group (l.binary r operator)) := by
  have hnestingLeft := hl.nesting
  have hnestingRight := hr.nesting
  constructor
  · rw [Operand.expr, Operand.expr_binary, hl.expr_eq, hr.expr_eq]
  · have htext : (Expr.binary operator left right).text.toList =
        '(' :: ((left.text.toList ++ ' ' :: operator.symbol :: ' ' :: right.text.toList) ++
          [')']) := by
      rw [text]
      simp
    have hmark := Lexeme.ofChars_mark_eq_ok operator.ofMark?_symbol
      ((Lexeme.ofChars_blank (by decide : Text.isBlank ' ') _).trans hr.lexemes)
    rw [htext, Operand.lexemes, Operand.lexemes_binary]
    exact Lexeme.ofChars_group (Lexeme.ofChars_append_eq_ok (by decide) hl.lexemes
      ((Lexeme.ofChars_blank (by decide : Text.isBlank ' ') _).trans hmark))
  · have hnesting := l.nesting_binary_le r operator
    rw [Operand.inner, depth]
    omega

theorem prints_bareCall {function : String} (h : IsName function) :
    Prints (.call function []) (.bareCall function) := by
  refine ⟨by rw [Operand.expr], ?_, by simp [Operand.inner, depth, depthOfAll]⟩
  have htext : (Expr.call function []).text.toList = function.toList ++ '(' :: ([] ++ [')']) := by
    rw [text, textOfAll]
    simp
  rw [htext, Operand.lexemes]
  exact Lexeme.ofChars_append_eq_ok (by decide) (ofChars_name h)
    (Lexeme.ofChars_group Lexeme.ofChars_nil)

theorem PrintsAll.call {function : String} {exprs : List Expr} {arguments : Arguments}
    (h : PrintsAll exprs arguments) (hname : IsName function) :
    Prints (.call function exprs) (.call function arguments) := by
  have hnesting := h.nesting
  constructor
  · rw [Operand.expr, h.exprs_eq]
  · have htext : (Expr.call function exprs).text.toList =
        function.toList ++ '(' :: ((textOfAll exprs).toList ++ [')']) := by
      rw [text]
      simp
    rw [htext, Operand.lexemes]
    exact Lexeme.ofChars_append_eq_ok (by decide) (ofChars_name hname)
      (Lexeme.ofChars_group h.lexemes)
  · rw [Operand.inner, depth]
    omega

theorem Prints.last (h : Prints expr operand) : PrintsAll [expr] (.last operand.sum) := by
  have hnesting := h.nesting
  constructor
  · rw [Arguments.exprs, Operand.expr_sum, h.expr_eq]
  · have htext : textOfAll [expr] = expr.text := by
      rw [textOfAll, textOfMore, String.append_empty]
    rw [htext, Arguments.lexemes, Operand.lexemes_sum, h.lexemes]
  · rw [Arguments.nesting, Operand.nesting_sum, depthOfAll, depthOfAll]
    omega

theorem PrintsAll.more {second : Expr} {rest : List Expr} {arguments : Arguments}
    (h : PrintsAll (second :: rest) arguments) (hfirst : Prints expr operand) :
    PrintsAll (expr :: second :: rest) (.more operand.sum arguments) := by
  have hnesting := h.nesting
  have hnestingFirst := hfirst.nesting
  constructor
  · rw [Arguments.exprs, Operand.expr_sum, hfirst.expr_eq, h.exprs_eq]
  · have htext : (textOfAll (expr :: second :: rest)).toList =
        expr.text.toList ++ ',' :: ' ' :: (textOfAll (second :: rest)).toList := by
      rw [textOfAll, textOfMore, textOfAll]
      simp
    have hmore := (Lexeme.ofChars_blank (by decide : Text.isBlank ' ') _).trans h.lexemes
    rw [htext, Arguments.lexemes, Operand.lexemes_sum]
    exact Lexeme.ofChars_append_eq_ok (by decide) hfirst.lexemes
      (Lexeme.ofChars_mark_eq_ok rfl hmore)
  · rw [Arguments.nesting, Operand.nesting_sum, depthOfAll]
    omega

end

mutual

/-- Every printable expression is printed as an operand. -/
theorem exists_prints : ∀ {expr : Expr}, expr.Printable → ∃ operand, Prints expr operand
  | .number value, h => by
    rw [Printable] at h
    obtain ⟨m, rfl⟩ := h
    exact ⟨_, prints_number m⟩
  | .name text, h => by
    rw [Printable] at h
    exact ⟨_, prints_name h⟩
  | .neg operand, h => by
    rw [Printable] at h
    obtain ⟨o, ho⟩ := exists_prints h
    exact ⟨_, ho.neg⟩
  | .binary operator left right, h => by
    rw [Printable] at h
    obtain ⟨l, hl⟩ := exists_prints h.1
    obtain ⟨r, hr⟩ := exists_prints h.2
    exact ⟨_, hl.binary operator hr⟩
  | .call function arguments, h => by
    rw [Printable] at h
    by_cases hempty : arguments = []
    · rw [hempty]
      exact ⟨_, prints_bareCall h.1⟩
    · obtain ⟨a, ha⟩ := exists_printsAll h.2 hempty
      exact ⟨_, ha.call h.1⟩

theorem exists_printsAll : ∀ {exprs : List Expr}, AllPrintable exprs → exprs ≠ [] →
    ∃ arguments, PrintsAll exprs arguments
  | [], _, hempty => absurd rfl hempty
  | first :: rest, h, _ => by
    rw [AllPrintable] at h
    obtain ⟨o, ho⟩ := exists_prints h.1
    match rest, exists_printsAll h.2 with
    | [], _ => exact ⟨_, ho.last⟩
    | _ :: _, hrest =>
      obtain ⟨a, ha⟩ := hrest (List.cons_ne_nil _ _)
      exact ⟨_, ha.more ho⟩

end

/-- The text of a printable expression is read as the expression, if the limit is at least twice its
height less one. -/
theorem Printable.exists_tokens {expr : Expr} (h : expr.Printable) :
    ∃ tokens, Token.ofText expr.text = .ok tokens ∧
      ∀ limit, 2 * expr.depth - 1 ≤ limit → Expr.ofTokens tokens limit = .ok expr := by
  obtain ⟨operand, hprints⟩ := exists_prints h
  have hexpr := operand.expr_sum.trans hprints.expr_eq
  have hlexemes := hprints.lexemes
  rw [← operand.lexemes_sum] at hlexemes
  obtain ⟨tokens, htokens, hread⟩ := Token.exists_ofText_of_sum operand.sum hlexemes
  rw [hexpr, operand.nesting_sum] at hread
  have hnesting := hprints.nesting
  exact ⟨tokens, htokens, fun limit hlimit ↦ hread limit ⟨by omega, by omega⟩⟩

/-- A printable expression is read from its text, and no other one has this text. -/
theorem text_reads_back {expr : Expr} (h : expr.Printable) :
    (∃ tokens, Token.ofText expr.text = .ok tokens ∧
      ∀ limit, 2 * expr.depth - 1 ≤ limit → Expr.ofTokens tokens limit = .ok expr) ∧
    ∀ expr' : Expr, expr'.Printable → expr'.text = expr.text → expr' = expr := by
  refine ⟨h.exists_tokens, fun expr' h' htext ↦ ?_⟩
  obtain ⟨tokens, htokens, hread⟩ := h.exists_tokens
  obtain ⟨tokens', htokens', hread'⟩ := h'.exists_tokens
  rw [htext, htokens] at htokens'
  cases htokens'
  have hboth := hread (max (2 * expr.depth - 1) (2 * expr'.depth - 1)) (Nat.le_max_left _ _)
  rw [hread' _ (Nat.le_max_right _ _)] at hboth
  cases hboth
  rfl

/-- The tree of `f_1(x, g())^-0`. -/
def callToNegatedZero : Expr :=
  .binary .pow (.call "f_1" [.name "x", .call "g" []]) (.neg (.number .zero))

/-- The tree has height three, and its zero is enclosed four times in `(f_1(x, g()) ^ (-0))`, so no
smaller limit would do. -/
theorem callToNegatedZero_text_reads_back :
    callToNegatedZero.Printable ∧ callToNegatedZero.depth = 3 ∧
      ∃ tokens, Token.ofText callToNegatedZero.text = .ok tokens ∧
        Expr.ofTokens tokens 5 = .ok callToNegatedZero := by
  have hf : IsName "f_1" := ⟨'f', ['_', '1'], rfl, rfl, List.all_eq_true.mp rfl⟩
  have hx : IsName "x" := ⟨'x', [], rfl, rfl, List.all_eq_true.mp rfl⟩
  have hg : IsName "g" := ⟨'g', [], rfl, rfl, List.all_eq_true.mp rfl⟩
  have hprintable : callToNegatedZero.Printable := by
    simp only [callToNegatedZero, Printable, AllPrintable]
    exact ⟨⟨hf, hx, ⟨hg, trivial⟩, trivial⟩, _, rfl⟩
  obtain ⟨tokens, htokens, hread⟩ := (text_reads_back hprintable).1
  exact ⟨hprintable, rfl, tokens, htokens, hread 5 (by decide)⟩

end Expr

end Reckoner
