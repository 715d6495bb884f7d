import Reckoner.Proofs.Expr.Context
import Reckoner.Proofs.Expr.Overflow
import Reckoner.Proofs.ResultText

/-!
# Expressions with Zeros of Either Sign

Two expressions that are the same but for the signs of the zeros written in them have the same
value.  What they are worked out to is finite, and the text of a result does not show the sign of a
zero, so nobody who reads the answers can tell them apart.
-/

namespace Reckoner

namespace Expr

open Binary64

/-! ## Trees with equal numbers -/

mutual

/-- The same tree with a number in the place of each number that compares as equal to it. -/
inductive EqualNumbers : Expr → Expr → Prop where
  | number {x y : Binary64} (h : x.equals y) : EqualNumbers (.number x) (.number y)
  | name (text : String) : EqualNumbers (.name text) (.name text)
  | call (function : String) {arguments arguments' : List Expr}
    (h : EqualNumbersInAll arguments arguments') :
    EqualNumbers (.call function arguments) (.call function arguments')
  | neg {operand operand' : Expr} (h : EqualNumbers operand operand') :
    EqualNumbers (.neg operand) (.neg operand')
  | binary (operator : Operator) {left left' right right' : Expr}
    (hleft : EqualNumbers left left') (hright : EqualNumbers right right') :
    EqualNumbers (.binary operator left right) (.binary operator left' right')

/-- As many trees with equal numbers, one by one. -/
inductive EqualNumbersInAll : List Expr → List Expr → Prop where
  | nil : EqualNumbersInAll [] []
  | cons {first first' : Expr} {rest rest' : List Expr} (hfirst : EqualNumbers first first')
    (hrest : EqualNumbersInAll rest rest') : EqualNumbersInAll (first :: rest) (first' :: rest')

end

variable {vocabulary : Vocabulary}

mutual

/-- Trees with equal numbers have the same value if no function tells the zeros apart. -/
theorem EqualNumbers.sameValue (hvocabulary : vocabulary.IgnoresZeroSign) :
    ∀ {e e' : Expr}, EqualNumbers e e' → SameValue vocabulary e e'
  | _, _, .number h => by
    rw [SameValue, evaluate, evaluate]
    exact (SameNumber.of_equals h).finiteOnly
  | _, _, .name text => SameValue.refl (.name text)
  | _, _, .call function h => SameValue.call hvocabulary function (h.sameValue hvocabulary)
  | _, _, .neg h => (h.sameValue hvocabulary).neg
  | _, _, .binary operator hleft hright =>
    (hleft.sameValue hvocabulary).binary operator (hright.sameValue hvocabulary)

theorem EqualNumbersInAll.sameValue (hvocabulary : vocabulary.IgnoresZeroSign) :
    ∀ {exprs exprs' : List Expr}, EqualNumbersInAll exprs exprs' →
      List.Forall₂ (SameValue vocabulary) exprs exprs'
  | _, _, .nil => .nil
  | _, _, .cons hfirst hrest => .cons (hfirst.sameValue hvocabulary) (hrest.sameValue hvocabulary)

end

/-! ## The sign of a zero -/

variable {e e' : Expr}

/-- Expressions of the same value fail with one fault, or their values compare as equal and have one
text. -/
theorem SameValue.observed (h : SameValue vocabulary e e') :
    (∃ fault, e.evaluate vocabulary = .error fault ∧ e'.evaluate vocabulary = .error fault) ∨
    ∃ x y text, e.evaluate vocabulary = .ok x ∧ e'.evaluate vocabulary = .ok y ∧ x.equals y ∧
      x.resultText = .ok text ∧ y.resultText = .ok text := by
  rw [SameValue] at h
  cases hleft : e.evaluate vocabulary with
  | error fault =>
    cases hright : e'.evaluate vocabulary with
    | error fault' =>
      rw [hleft, hright] at h
      cases (h : fault = fault')
      exact .inl ⟨fault, rfl, rfl⟩
    | ok y =>
      rw [hleft, hright] at h
      exact False.elim h
  | ok x =>
    cases hright : e'.evaluate vocabulary with
    | error fault =>
      rw [hleft, hright] at h
      exact False.elim h
    | ok y =>
      rw [hleft, hright] at h
      have hsame : SameNumber x y := h
      have hfinite : x.isFinite := evaluate_isFinite hleft
      obtain ⟨n, m, rfl⟩ := exists_finite hfinite
      obtain ⟨text, htext, -⟩ := exists_resultText n m
      exact .inr ⟨_, y, text, rfl, rfl, hsame.equals hfinite, htext, hsame.resultText ▸ htext⟩

/-- Expressions that are the same but for numbers that compare as equal either both fail, with the
same fault, or have values that compare as equal and have the same text. -/
theorem EqualNumbers.indistinguishable (h : EqualNumbers e e') :
    (∃ fault, e.evaluate .standard = .error fault ∧ e'.evaluate .standard = .error fault) ∨
    ∃ x y text, e.evaluate .standard = .ok x ∧ e'.evaluate .standard = .ok y ∧ x.equals y ∧
      x.resultText = .ok text ∧ y.resultText = .ok text :=
  (h.sameValue Vocabulary.standard_ignoresZeroSign).observed

/-- `sqrt(0 * -1)`, with a zero of either sign. -/
def rootOfNegatedZero (negative : Bool) : Expr :=
  .call "sqrt" [.binary .mul (.number (zeroOf negative)) (.neg (.number .one))]

/-- The zeros are told apart in the values, but not in the texts. -/
theorem rootOfNegatedZero_indistinguishable :
    EqualNumbers (rootOfNegatedZero false) (rootOfNegatedZero true) ∧
    (rootOfNegatedZero false).evaluate .standard = .ok (zeroOf true) ∧
    (rootOfNegatedZero true).evaluate .standard = .ok (zeroOf false) ∧
    (zeroOf true).equals (zeroOf false) ∧
    (zeroOf true).resultText = (zeroOf false).resultText := by
  have hnumbers : EqualNumbers (rootOfNegatedZero false) (rootOfNegatedZero true) := by
    have hone : one.equals one := by decide +kernel
    exact .call _ (.cons (.binary _ (.number rfl) (.neg (.number hone))) .nil)
  have hclear : (rootOfNegatedZero false).evaluate .standard = .ok (zeroOf true) := by
    decide +kernel
  have hset : (rootOfNegatedZero true).evaluate .standard = .ok (zeroOf false) := by
    decide +kernel
  refine ⟨hnumbers, hclear, hset, ?_⟩
  rcases hnumbers.indistinguishable with ⟨fault, hfault, -⟩ | ⟨x, y, text, hx, hy, hequals, htexts⟩
  · cases hclear.symm.trans hfault
  · cases hclear.symm.trans hx
    cases hset.symm.trans hy
    exact ⟨hequals, htexts.1.trans htexts.2.symm⟩

end Expr

end Reckoner
