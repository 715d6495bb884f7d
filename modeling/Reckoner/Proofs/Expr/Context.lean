import Mathlib.Data.List.Forall2
import Reckoner.Proofs.Binary64.ZeroSign
import Reckoner.Proofs.Names.ClosedVocabulary

/-!
# Expressions in Contexts

Two expressions have the same value if both evaluate to the same number or fail alike.  Operations
and calls keep this, in every place of an operand or an argument, and with them every context: an
expression with a hole.  All that is asked of the vocabulary is that its functions do not tell the
zeros apart.
-/

namespace Reckoner

open Binary64

/-- The functions of the vocabulary take the same numbers to the same number or fault. -/
def Vocabulary.IgnoresZeroSign (vocabulary : Vocabulary) : Prop :=
  ∀ text function, vocabulary.function? text = some function → ∀ values values',
    List.Forall₂ SameNumber values values' →
      SameOutcome (function.apply values) (function.apply values')

/-! ## The standard functions -/

namespace Function

variable {values values' : List Binary64} {name : String}

theorem argument_same (h : List.Forall₂ SameNumber values values') (place : Nat) :
    SameOutcome (argument values place) (argument values' place) := by
  induction h generalizing place with
  | nil => exact SameOutcome.refl _
  | cons hfirst hrest ih =>
    cases place with
    | zero => exact hfirst
    | succ place => exact ih place

theorem unary_same {f : Binary64 → Evaluation}
    (hf : ∀ {x y}, SameNumber x y → SameOutcome (f x) (f y))
    (h : List.Forall₂ SameNumber values values') :
    SameOutcome ((unary name f).apply values) ((unary name f).apply values') :=
  (argument_same h 0).bind hf

theorem binary_same {f : Binary64 → Binary64 → Evaluation}
    (hf : ∀ {x x' y y'}, SameNumber x x' → SameNumber y y' → SameOutcome (f x y) (f x' y'))
    (h : List.Forall₂ SameNumber values values') :
    SameOutcome ((binary name f).apply values) ((binary name f).apply values') :=
  (argument_same h 0).bind fun hx ↦ (argument_same h 1).bind fun hy ↦ hf hx hy

theorem optional_same {f : Binary64 → Binary64}
    (hf : ∀ {x y}, SameNumber x y → SameNumber (f x) (f y))
    (h : List.Forall₂ SameNumber values values') :
    SameOutcome ((optional name f).apply values) ((optional name f).apply values') := by
  cases h with
  | nil => exact SameOutcome.refl _
  | cons hfirst hrest => exact hf hfirst

end Function

theorem Vocabulary.standard_ignoresZeroSign : Vocabulary.standard.IgnoresZeroSign := by
  intro text function hfunction values values' h
  obtain ⟨hmem, -⟩ := standardFunctions_of_function? hfunction
  simp only [standardFunctions, List.mem_cons, List.not_mem_nil, or_false] at hmem
  rcases hmem with rfl | rfl | rfl | rfl | rfl | rfl | rfl | rfl | rfl | rfl
  · exact Function.unary_same (fun hxy ↦ hxy.sin) h
  · exact Function.unary_same (fun hxy ↦ hxy.cos) h
  · exact Function.unary_same (fun hxy ↦ hxy.tan) h
  · exact Function.unary_same SameOutcome.squareRoot h
  · exact Function.unary_same SameOutcome.logarithm h
  · exact Function.unary_same (fun hxy ↦ hxy.abs) h
  · exact Function.unary_same (fun hxy ↦ hxy.roundTiesToEven) h
  · exact Function.binary_same SameOutcome.power h
  · exact Function.optional_same SameNumber.trunc h
  · exact Function.optional_same id h

namespace Expr

/-! ## The same value -/

/-- Both expressions evaluate to the same number, or fail alike. -/
def SameValue (vocabulary : Vocabulary) (e e' : Expr) : Prop :=
  SameOutcome (e.evaluate vocabulary) (e'.evaluate vocabulary)

variable {vocabulary : Vocabulary} {e e' left left' right right' : Expr}
  {arguments arguments' : List Expr}

theorem SameValue.refl (e : Expr) : SameValue vocabulary e e := SameOutcome.refl _

theorem forall₂_sameValue_refl (exprs : List Expr) :
    List.Forall₂ (SameValue vocabulary) exprs exprs := by
  rw [List.forall₂_same]
  exact fun e _ ↦ SameValue.refl e

theorem SameValue.neg (h : SameValue vocabulary e e') :
    SameValue vocabulary (.neg e) (.neg e') := by
  rw [SameValue, evaluate, evaluate]
  exact Alike.bind h fun hxy ↦ hxy.neg.finiteOnly

theorem Operator.apply_same (operator : Operator) {x x' y y' : Binary64} (hx : SameNumber x x')
    (hy : SameNumber y y') : SameOutcome (operator.apply x y) (operator.apply x' y') := by
  cases operator with
  | add => exact hx.add hy
  | sub => exact hx.sub hy
  | mul => exact hx.mul hy
  | div => exact SameOutcome.quotient hx hy
  | pow => exact SameOutcome.power hx hy

theorem SameValue.binary (operator : Operator) (hleft : SameValue vocabulary left left')
    (hright : SameValue vocabulary right right') :
    SameValue vocabulary (.binary operator left right) (.binary operator left' right') := by
  rw [SameValue, evaluate, evaluate]
  exact Alike.bind hleft fun hx ↦ Alike.bind hright fun hy ↦
    (Operator.apply_same operator hx hy).bind fun hxy ↦ hxy.finiteOnly

theorem evaluateAll_same (h : List.Forall₂ (SameValue vocabulary) arguments arguments') :
    Alike (List.Forall₂ SameNumber) (evaluateAll vocabulary arguments)
      (evaluateAll vocabulary arguments') := by
  induction h with
  | nil => exact List.Forall₂.nil
  | cons hfirst hrest ih =>
    rw [evaluateAll, evaluateAll]
    exact Alike.bind hfirst fun hx ↦ ih.bind fun hxs ↦ List.Forall₂.cons hx hxs

theorem callee_same (function : String) (given : Nat) :
    Alike (fun f f' ↦ f = f' ∧ vocabulary.function? function = some f)
      (callee vocabulary function given) (callee vocabulary function given) := by
  cases hcallee : callee vocabulary function given with
  | error fault => exact rfl
  | ok f => exact ⟨rfl, (callee_eq_ok hcallee).1⟩

theorem SameValue.call (hvocabulary : vocabulary.IgnoresZeroSign) (function : String)
    (h : List.Forall₂ (SameValue vocabulary) arguments arguments') :
    SameValue vocabulary (.call function arguments) (.call function arguments') := by
  rw [SameValue, evaluate, evaluate, h.length_eq]
  apply (callee_same function arguments'.length).bind
  rintro f f' ⟨rfl, hfunction⟩
  exact (evaluateAll_same h).bind fun hvalues ↦
    (hvocabulary function f hfunction _ _ hvalues).bind fun hxy ↦ hxy.finiteOnly

/-! ## Contexts -/

/-- An expression with a hole. -/
inductive Context where
  | hole
  | neg (operand : Context)
  | left (operator : Operator) (inner : Context) (right : Expr)
  | right (operator : Operator) (left : Expr) (inner : Context)
  | argument (function : String) (before : List Expr) (inner : Context) (after : List Expr)

def Context.fill (e : Expr) : Context → Expr
  | .hole => e
  | .neg operand => .neg (operand.fill e)
  | .left operator inner right => .binary operator (inner.fill e) right
  | .right operator left inner => .binary operator left (inner.fill e)
  | .argument function before inner after => .call function (before ++ inner.fill e :: after)

def Context.comp : (outside inside : Context) → Context
  | .hole, inside => inside
  | .neg operand, inside => .neg (operand.comp inside)
  | .left operator inner right, inside => .left operator (inner.comp inside) right
  | .right operator left inner, inside => .right operator left (inner.comp inside)
  | .argument function before inner after, inside =>
    .argument function before (inner.comp inside) after

theorem Context.fill_comp (outside inside : Context) (e : Expr) :
    (outside.comp inside).fill e = outside.fill (inside.fill e) := by
  induction outside with
  | hole => rfl
  | neg operand ih => rw [comp, fill, fill, ih]
  | left operator inner right ih => rw [comp, fill, fill, ih]
  | right operator left inner ih => rw [comp, fill, fill, ih]
  | argument function before inner after ih => rw [comp, fill, fill, ih]

/-- Expressions of the same value may stand for each other in every context. -/
theorem Context.fill_sameValue (hvocabulary : vocabulary.IgnoresZeroSign)
    (h : SameValue vocabulary e e') (context : Context) :
    SameValue vocabulary (context.fill e) (context.fill e') := by
  induction context with
  | hole => exact h
  | neg operand ih => exact ih.neg
  | left operator inner right ih => exact ih.binary operator (SameValue.refl right)
  | right operator left inner ih => exact (SameValue.refl left).binary operator ih
  | argument function before inner after ih =>
    apply SameValue.call hvocabulary
    apply List.rel_append (forall₂_sameValue_refl before)
    exact .cons ih (forall₂_sameValue_refl after)

end Expr

end Reckoner
