import Reckoner.Proofs.Brackets
import Reckoner.Proofs.Names.StandardFunctions

/-!
# Two Spellings of a Power

A power may be written as a call of `pow` or with a caret between brackets.  The first is looked up
in the vocabulary, has its arguments counted and collected, and is applied as a function; the second
is an operation of the grammar.  Both work out the operands from left to right and share one guarded
power, so that nothing tells them apart, whatever expressions are written for the operands.
-/

namespace Reckoner

open Grammar

/-! ## Evaluation -/

/-- The function of the vocabulary and the operation of the grammar are one. -/
theorem Expr.evaluate_powerCall (x y : Expr) :
    (Expr.call "pow" [x, y]).evaluate .standard = (Expr.binary .pow x y).evaluate .standard := by
  have hcallee : Expr.callee .standard "pow" 2 = .ok (.binary "pow" Binary64.power) := by
    rw [callee, Vocabulary.standard_pow]
    rfl
  rw [evaluate, evaluate, List.length_cons, List.length_singleton, hcallee, ok_bind]
  simp only [evaluateAll]
  cases x.evaluate .standard with
  | error fault => rfl
  | ok base =>
    cases y.evaluate .standard with
    | error fault => rfl
    | ok exponent => rfl

theorem Expr.result_powerCall (x y : Expr) :
    (Expr.call "pow" [x, y]).result = (Expr.binary .pow x y).result := by
  rw [result, result, evaluate_powerCall]

/-! ## The two texts -/

def powerCall (x y : String) : String := "pow(" ++ x ++ "," ++ y ++ ")"

def powerOperation (x y : String) : String := "(" ++ x ++ ")^(" ++ y ++ ")"

section

variable {x y : String} {sum sum' : Sum} (hx : Lexeme.ofChars x.toList = .ok sum.lexemes)
  (hy : Lexeme.ofChars y.toList = .ok sum'.lexemes)

include hx hy

theorem ofChars_powerCall : Lexeme.ofChars (powerCall x y).toList =
    .ok (.name "pow" :: .opening :: (sum.lexemes ++ .comma :: (sum'.lexemes ++ [.closing]))) := by
  have htext : (powerCall x y).toList =
      "pow".toList ++ '(' :: (x.toList ++ ',' :: (y.toList ++ [')'])) := by
    simp [powerCall]
  have hname : Lexeme.ofChars "pow".toList = .ok [.name "pow"] := by decide +kernel
  have hclosing : Lexeme.ofChars [')'] = .ok [.closing] :=
    Lexeme.ofChars_mark_eq_ok rfl Lexeme.ofChars_nil
  have hsecond := Lexeme.ofChars_append_eq_ok (by decide) hy hclosing
  have hfirst := Lexeme.ofChars_append_eq_ok (by decide) hx
    (Lexeme.ofChars_mark_eq_ok (c := ',') rfl hsecond)
  rw [htext]
  exact Lexeme.ofChars_append_eq_ok (by decide) hname (Lexeme.ofChars_mark_eq_ok rfl hfirst)

theorem ofChars_powerOperation : Lexeme.ofChars (powerOperation x y).toList =
    .ok (.opening :: (sum.lexemes ++ [.closing]) ++
      .caret :: .opening :: (sum'.lexemes ++ [.closing])) := by
  have htext : (powerOperation x y).toList =
      '(' :: (x.toList ++ [')']) ++ '^' :: '(' :: (y.toList ++ [')']) := by
    simp [powerOperation]
  rw [htext]
  exact Lexeme.ofChars_append_eq_ok (by decide) (Lexeme.ofChars_group hx)
    (Lexeme.ofChars_mark_eq_ok rfl (Lexeme.ofChars_group hy))

end

/-- The call is a phrase of the grammar. -/
theorem derives_powerCall (sum sum' : Sum) :
    Derives (.name "pow" :: .opening :: (sum.lexemes ++ .comma :: (sum'.lexemes ++ [.closing])))
      (.call "pow" [sum.expr, sum'.expr]) := by
  let call : Operand := .call "pow" (.more sum (.last sum'))
  refine ⟨call.sum, ?_, ?_⟩
  · simp [call, Operand.lexemes_sum, Operand.lexemes, Arguments.lexemes]
  · simp [call, Operand.expr_sum, Operand.expr, Arguments.exprs]

/-- So is the operation, with the second bracket for a negation. -/
theorem derives_powerOperation (sum sum' : Sum) :
    Derives (.opening :: (sum.lexemes ++ [.closing]) ++
      .caret :: .opening :: (sum'.lexemes ++ [.closing])) (.binary .pow sum.expr sum'.expr) := by
  let power : Power := .raised (.group sum) (Operand.group sum').negation
  refine ⟨.single (.single (.plain power)), ?_, ?_⟩
  · simp [power, Operand.negation, Sum.lexemes, Product.lexemes, Negation.lexemes, Power.lexemes,
      Operand.lexemes]
  · simp [power, Operand.negation, Sum.expr, Product.expr, Negation.expr, Power.expr, Operand.expr]

/-! ## One computation -/

/-- The call and the operation have one outcome, the result of the operation on the expressions
that are written for the operands, wherever the limits do not show. -/
theorem powerCall_outcome_eq {x y : String} {limit limit' : Nat} {base exponent : Expr}
    (hx : Expr.ofText x limit = .ok base) (hy : Expr.ofText y limit' = .ok exponent)
    {limits : Limits} (hcall : limits.Exceed (powerCall x y))
    (hoperation : limits.Exceed (powerOperation x y)) :
    (Calculation.ofText (powerCall x y) limits).outcome =
        (Calculation.ofText (powerOperation x y) limits).outcome ∧
      (Calculation.ofText (powerOperation x y) limits).outcome =
        (Expr.binary .pow base exponent).result := by
  obtain ⟨sum, hsum, rfl⟩ := Expr.exists_sum_of_ofText hx
  obtain ⟨sum', hsum', rfl⟩ := Expr.exists_sum_of_ofText hy
  have hlexemes := ofChars_powerCall hsum hsum'
  have hlexemes' := ofChars_powerOperation hsum hsum'
  have hblank := Lexeme.not_blank_of_ofChars hlexemes (List.cons_ne_nil _ _)
  have hblank' := Lexeme.not_blank_of_ofChars hlexemes' (List.cons_ne_nil _ _)
  have houtcome := Calculation.outcome_eq_result hblank hcall.1.le hcall.2 hlexemes
    (derives_powerCall sum sum')
  have houtcome' := Calculation.outcome_eq_result hblank' hoperation.1.le hoperation.2 hlexemes'
    (derives_powerOperation sum sum')
  refine ⟨?_, houtcome'⟩
  rw [houtcome, houtcome', Expr.result_powerCall]

/-- Both refuse a fractional power of a negative number, with one fault. -/
theorem cubeRootOfNegative_outcome_eq :
    Limits.Exceed {} (powerCall " -8" "1/3") ∧ Limits.Exceed {} (powerOperation " -8" "1/3") ∧
      (Calculation.ofText (powerCall " -8" "1/3") {}).outcome =
        (Calculation.ofText (powerOperation " -8" "1/3") {}).outcome ∧
      (Calculation.ofText (powerOperation " -8" "1/3") {}).outcome =
        .error (.evaluation (.outsideDomain .fractionalPower)) := by
  have hbase : Expr.ofText " -8" 2 = .ok (.neg (.number (.ofDecimal false 8 0))) := by
    with_unfolding_all rfl
  have hexponent : Expr.ofText "1/3" 2 = .ok (.binary .div (.number (.ofDecimal false 1 0))
      (.number (.ofDecimal false 3 0))) := by
    with_unfolding_all rfl
  have hcall : Limits.Exceed {} (powerCall " -8" "1/3") := by
    constructor <;> decide +kernel
  have hoperation : Limits.Exceed {} (powerOperation " -8" "1/3") := by
    constructor <;> decide +kernel
  have hfault : (Calculation.ofText (powerOperation " -8" "1/3") {}).outcome =
      .error (.evaluation (.outsideDomain .fractionalPower)) := by
    decide +kernel
  exact ⟨hcall, hoperation, (powerCall_outcome_eq hbase hexponent hcall hoperation).1, hfault⟩

end Reckoner
