import Mathlib.Logic.Relation
import Reckoner.Proofs.Expr.Context

/-!
# The Order of the Checks

An evaluation makes checks, each at a node of the tree: whether a number is finite, whether a name
is known and takes that many arguments, and whether an operation has a finite value.  `checks` lists
them in order: those of the operands before that of the operation, and the name and the number of
arguments of a call before all that is in its brackets.

What a check says depends on the tree alone, not on the checks before it: `uncheckedValue` gives
every tree a value, with not-a-number in place of faults.  The evaluation fails as the first check
in the list that does, so that nothing after this check has any influence.
-/

namespace Reckoner

/-! ## Values without checks -/

def Evaluation.orNan : Evaluation → Binary64
  | .ok value => value
  | .error _ => .nan

namespace Expr

variable (vocabulary : Vocabulary)

mutual

/-- The value of an expression if nothing is checked. -/
def uncheckedValue : Expr → Binary64
  | number value => value
  | name text => (vocabulary.constant? text).getD .nan
  | neg operand => (uncheckedValue operand).neg
  | binary operator left right =>
    Evaluation.orNan (operator.apply (uncheckedValue left) (uncheckedValue right))
  | call text arguments =>
    (vocabulary.function? text).elim .nan fun function ↦
      Evaluation.orNan (function.apply (uncheckedValues arguments))

def uncheckedValues : List Expr → List Binary64
  | [] => []
  | first :: rest => uncheckedValue first :: uncheckedValues rest

end

end Expr

/-! ## Checks -/

/-- A check that an evaluation makes. -/
inductive Check where
  /-- A number has to be finite. -/
  | number (value : Binary64)
  /-- A constant has to be known, and finite. -/
  | constant (text : String)
  /-- A negation has to be finite. -/
  | negation (operand : Expr)
  /-- An operation has to be possible, and its value finite. -/
  | operation (operator : Operator) (left right : Expr)
  /-- A function has to be known. -/
  | function (text : String)
  /-- It has to take that many arguments. -/
  | arity (text : String) (given : Nat)
  /-- It has to be defined for its arguments, and its value finite. -/
  | application (text : String) (arguments : List Expr)

def Evaluation.fault? : Evaluation → Option EvalFault
  | .ok _ => none
  | .error fault => some fault

namespace Check

variable (vocabulary : Vocabulary)

def fault? : Check → Option EvalFault
  | number value => Evaluation.fault? value.finiteOnly
  | constant text =>
    (vocabulary.constant? text).elim (some (.unknownName text)) fun value ↦
      Evaluation.fault? value.finiteOnly
  | negation operand => Evaluation.fault? (operand.uncheckedValue vocabulary).neg.finiteOnly
  | operation operator left right =>
    Evaluation.fault? (operator.apply (left.uncheckedValue vocabulary)
      (right.uncheckedValue vocabulary) >>= Binary64.finiteOnly)
  | function text => (vocabulary.function? text).elim (some (.unknownName text)) fun _ ↦ none
  | arity text given =>
    (vocabulary.function? text).elim none fun function ↦
      if function.arity.accepts given then none
      else some (.arityMismatch function.name function.arity given)
  | application text arguments =>
    (vocabulary.function? text).elim none fun function ↦
      Evaluation.fault? (function.apply (Expr.uncheckedValues vocabulary arguments) >>=
        Binary64.finiteOnly)

/-- The check finds no fault. -/
def Passes (check : Check) : Prop := check.fault? vocabulary = none

instance (check : Check) : Decidable (check.Passes vocabulary) :=
  inferInstanceAs (Decidable (_ = _))

end Check

namespace Expr

mutual

/-- The checks of an expression, in order. -/
def checks : Expr → List Check
  | number value => [.number value]
  | name text => [.constant text]
  | neg operand => operand.checks ++ [.negation operand]
  | binary operator left right =>
    left.checks ++ right.checks ++ [.operation operator left right]
  | call text arguments =>
    .function text :: .arity text arguments.length :: checksOfAll arguments ++
      [.application text arguments]

def checksOfAll : List Expr → List Check
  | [] => []
  | first :: rest => first.checks ++ checksOfAll rest

end

/-! ## The first fault -/

def judged {α : Type} (fault? : Option EvalFault) (value : α) : Except EvalFault α :=
  fault?.elim (.ok value) .error

section

variable {α β : Type} {fault? fault?' : Option EvalFault} {value : α} {value' : β}

theorem judged_eq_ok_iff {result : α} :
    judged fault? value = .ok result ↔ fault? = none ∧ value = result := by
  cases fault? <;> simp [judged]

theorem judged_eq_error_iff {fault : EvalFault} :
    judged fault? value = .error fault ↔ fault? = some fault := by
  cases fault? <;> simp [judged]

/-- The fault of two steps is that of the first one, or else that of the second. -/
theorem judged_bind {next : α → Except EvalFault β} (h : next value = judged fault?' value') :
    judged fault? value >>= next = judged (fault?.or fault?') value' := by
  cases fault? with
  | none => exact h
  | some fault => rfl

end

def firstFault? (vocabulary : Vocabulary) (checks : List Check) : Option EvalFault :=
  checks.findSome? (Check.fault? vocabulary)

variable {vocabulary : Vocabulary}

theorem firstFault?_append (before after : List Check) :
    firstFault? vocabulary (before ++ after) =
      (firstFault? vocabulary before).or (firstFault? vocabulary after) :=
  List.findSome?_append

theorem firstFault?_singleton (check : Check) :
    firstFault? vocabulary [check] = check.fault? vocabulary := by
  rw [firstFault?, List.findSome?_singleton]

theorem firstFault?_eq_none_iff {checks : List Check} :
    firstFault? vocabulary checks = none ↔ ∀ check ∈ checks, check.Passes vocabulary :=
  List.findSome?_eq_none_iff

theorem finiteOnly_eq_judged (value : Binary64) :
    value.finiteOnly = judged (Evaluation.fault? value.finiteOnly) value := by
  rw [Binary64.finiteOnly]
  split <;> rfl

theorem bind_finiteOnly_eq_judged (attempt : Evaluation) :
    attempt >>= Binary64.finiteOnly =
      judged (Evaluation.fault? (attempt >>= Binary64.finiteOnly)) (Evaluation.orNan attempt) := by
  cases attempt with
  | ok value => exact finiteOnly_eq_judged value
  | error fault => rfl

theorem firstFault?_cons_passes {check : Check} (h : check.Passes vocabulary)
    (checks : List Check) :
    firstFault? vocabulary (check :: checks) = firstFault? vocabulary checks := by
  rw [firstFault?, List.findSome?_cons_of_isNone (by rw [h]; rfl), firstFault?]

theorem firstFault?_cons_fails {check : Check} {fault : EvalFault}
    (h : check.fault? vocabulary = some fault) (checks : List Check) :
    firstFault? vocabulary (check :: checks) = some fault := by
  rw [firstFault?, List.findSome?_cons_of_isSome (by rw [h]; rfl), h]

/-- The own check of a call comes after the checks of its name, its arguments and their number. -/
theorem evaluate_call_eq_judged {text : String} {arguments : List Expr}
    (ih : evaluateAll vocabulary arguments =
      judged (firstFault? vocabulary (checksOfAll arguments))
        (uncheckedValues vocabulary arguments)) :
    (call text arguments).evaluate vocabulary =
      judged (firstFault? vocabulary (call text arguments).checks)
        ((call text arguments).uncheckedValue vocabulary) := by
  rw [evaluate, callee, checks, uncheckedValue, List.cons_append, List.cons_append]
  cases hfunction : vocabulary.function? text with
  | none =>
    have hname : (Check.function text).fault? vocabulary = some (.unknownName text) := by
      rw [Check.fault?, hfunction]
      rfl
    rw [firstFault?_cons_fails hname]
    rfl
  | some function =>
    rw [firstFault?_cons_passes (by rw [Check.Passes, Check.fault?, hfunction]; rfl)]
    have harity : (Check.arity text arguments.length).fault? vocabulary =
        if function.arity.accepts arguments.length then none
        else some (.arityMismatch function.name function.arity arguments.length) := by
      rw [Check.fault?, hfunction]
      rfl
    dsimp only
    split
    case isTrue haccepts =>
      rw [if_pos haccepts] at harity
      rw [firstFault?_cons_passes harity, firstFault?_append, firstFault?_singleton]
      change evaluateAll vocabulary arguments >>= _ = _
      rw [ih]
      apply judged_bind
      rw [Check.fault?, hfunction]
      exact bind_finiteOnly_eq_judged _
    case isFalse haccepts =>
      rw [if_neg haccepts] at harity
      rw [firstFault?_cons_fails harity]
      rfl

mutual

/-- An evaluation fails as the first check that does, and has the unchecked value otherwise. -/
theorem evaluate_eq_judged : ∀ expr : Expr,
    expr.evaluate vocabulary =
      judged (firstFault? vocabulary expr.checks) (expr.uncheckedValue vocabulary)
  | number value => by
    rw [evaluate, checks, firstFault?_singleton, uncheckedValue]
    exact finiteOnly_eq_judged value
  | name text => by
    rw [evaluate, checks, firstFault?_singleton, uncheckedValue, Check.fault?]
    cases vocabulary.constant? text with
    | none => rfl
    | some value => exact finiteOnly_eq_judged value
  | neg operand => by
    rw [evaluate, checks, firstFault?_append, firstFault?_singleton, operand.evaluate_eq_judged]
    apply judged_bind
    exact finiteOnly_eq_judged _
  | binary operator left right => by
    rw [evaluate, checks, List.append_assoc, firstFault?_append, firstFault?_append,
      firstFault?_singleton, left.evaluate_eq_judged, right.evaluate_eq_judged]
    apply judged_bind
    apply judged_bind
    exact bind_finiteOnly_eq_judged _
  | call text arguments => evaluate_call_eq_judged (evaluateAll_eq_judged arguments)

theorem evaluateAll_eq_judged : ∀ exprs : List Expr,
    evaluateAll vocabulary exprs =
      judged (firstFault? vocabulary (checksOfAll exprs)) (uncheckedValues vocabulary exprs)
  | [] => rfl
  | first :: rest => by
    rw [evaluateAll, checksOfAll, firstFault?_append, first.evaluate_eq_judged,
      evaluateAll_eq_judged rest]
    apply judged_bind
    cases firstFault? vocabulary (checksOfAll rest) <;> rfl

end

theorem evaluate_eq_ok_iff {expr : Expr} {value : Binary64} :
    expr.evaluate vocabulary = .ok value ↔
      (∀ check ∈ expr.checks, check.Passes vocabulary) ∧
        expr.uncheckedValue vocabulary = value := by
  rw [evaluate_eq_judged, judged_eq_ok_iff, firstFault?_eq_none_iff]

theorem evaluate_eq_error_iff {expr : Expr} {fault : EvalFault} :
    expr.evaluate vocabulary = .error fault ↔ firstFault? vocabulary expr.checks = some fault := by
  rw [evaluate_eq_judged, judged_eq_error_iff]

/-! ## Checks around a place -/

theorem checksOfAll_append (before after : List Expr) :
    checksOfAll (before ++ after) = checksOfAll before ++ checksOfAll after := by
  induction before with
  | nil => rfl
  | cons first rest ih => rw [List.cons_append, checksOfAll, ih, checksOfAll, List.append_assoc]

theorem length_around (before after : List Expr) (e : Expr) :
    (before ++ e :: after).length = before.length + 1 + after.length := by
  rw [List.length_append, List.length_cons]
  omega

/-- The checks before those of what stands in the hole. -/
def Context.checksBefore : Context → List Check
  | .hole => []
  | .neg operand => operand.checksBefore
  | .left _ inner _ => inner.checksBefore
  | .right _ operand inner => operand.checks ++ inner.checksBefore
  | .argument text before inner after =>
    .function text :: .arity text (before.length + 1 + after.length) ::
      checksOfAll before ++ inner.checksBefore

/-- What stands in the hole changes no check before its own. -/
theorem Context.checks_fill (context : Context) (e : Expr) :
    ∃ after, (context.fill e).checks = context.checksBefore ++ e.checks ++ after := by
  induction context with
  | hole => exact ⟨[], by simp [fill, checksBefore]⟩
  | neg operand ih =>
    obtain ⟨after, hafter⟩ := ih
    exact ⟨_, by rw [fill, checks, hafter, checksBefore, List.append_assoc]⟩
  | left operator inner right ih =>
    obtain ⟨after, hafter⟩ := ih
    exact ⟨_, by rw [fill, checks, hafter, checksBefore, List.append_assoc, List.append_assoc]⟩
  | right operator left inner ih =>
    obtain ⟨after, hafter⟩ := ih
    exact ⟨after ++ _, by simp only [fill, checks, hafter, checksBefore, List.append_assoc]; rfl⟩
  | argument text before inner after ih =>
    obtain ⟨later, hlater⟩ := ih
    refine ⟨later ++
      (checksOfAll after ++ [.application text (before ++ inner.fill e :: after)]), ?_⟩
    simp only [fill, checks, checksOfAll_append, checksOfAll, hlater, checksBefore, length_around,
      List.append_assoc, List.cons_append]

/-- The first tree becomes the second by an exchange of one subtree, all of whose checks come after
one that fails. -/
inductive ExchangesLater (vocabulary : Vocabulary) : Expr → Expr → Prop where
  | intro (context : Context) (e e' : Expr) (check : Check) (hbefore : check ∈ context.checksBefore)
      (hfails : ¬ check.Passes vocabulary) :
      ExchangesLater vocabulary (context.fill e) (context.fill e')

theorem ExchangesLater.firstFault?_eq {e e' : Expr} (h : ExchangesLater vocabulary e e') :
    firstFault? vocabulary e'.checks = firstFault? vocabulary e.checks := by
  obtain ⟨context, e, e', check, hbefore, hfails⟩ := h
  obtain ⟨after, hafter⟩ := context.checks_fill e
  obtain ⟨after', hafter'⟩ := context.checks_fill e'
  obtain ⟨fault, hfault⟩ : ∃ fault, firstFault? vocabulary context.checksBefore = some fault := by
    rw [← Option.ne_none_iff_exists', Ne, firstFault?_eq_none_iff]
    exact fun hall ↦ hfails (hall check hbefore)
  simp only [hafter, hafter', List.append_assoc, firstFault?_append, hfault, Option.some_or]

/-- An evaluation succeeds if all checks pass, and otherwise fails as the first one that does not.
It fails so whatever is put in the place of subtrees whose checks all come later. -/
theorem evaluate_fails_as_first_check (vocabulary : Vocabulary) (e : Expr) :
    ((∃ value, e.evaluate vocabulary = .ok value) ↔
      ∀ check ∈ e.checks, check.Passes vocabulary) ∧
    (∀ fault, e.evaluate vocabulary = .error fault ↔
      ∃ before check after, e.checks = before ++ check :: after ∧
        (∀ earlier ∈ before, earlier.Passes vocabulary) ∧
        check.fault? vocabulary = some fault) ∧
    (∀ context inner, e = Context.fill inner context →
      ∃ after, e.checks = context.checksBefore ++ inner.checks ++ after) ∧
    (∀ fault e', e.evaluate vocabulary = .error fault →
      Relation.ReflTransGen (ExchangesLater vocabulary) e e' →
        e'.evaluate vocabulary = .error fault) := by
  refine ⟨?_, fun fault ↦ ?_, ?_, fun fault e' hfault hexchanges ↦ ?_⟩
  · simp only [evaluate_eq_ok_iff]
    exact ⟨fun ⟨_, hpasses, _⟩ ↦ hpasses, fun hpasses ↦ ⟨_, hpasses, rfl⟩⟩
  · rw [evaluate_eq_error_iff, firstFault?, List.findSome?_eq_some_iff]
    constructor
    · rintro ⟨before, check, after, hchecks, hfault, hbefore⟩
      exact ⟨before, check, after, hchecks, hbefore, hfault⟩
    · rintro ⟨before, check, after, hchecks, hbefore, hfault⟩
      exact ⟨before, check, after, hchecks, hfault, hbefore⟩
  · rintro context inner rfl
    exact context.checks_fill inner
  · induction hexchanges with
    | refl => exact hfault
    | tail _ hlast ih =>
      rw [evaluate_eq_error_iff] at ih ⊢
      rw [hlast.firstFault?_eq, ih]

/-- `-(1 / 0) + pow(x, 0)`, a fault before an unknown name. -/
def quotientBeforeName : Expr :=
  .binary .add (.neg (.binary .div (.number .one) (.number .zero)))
    (.call "pow" [.name "x", .number .zero])

/-- The same with `x` exchanged for a root without arguments. -/
def quotientBeforeRoot : Expr :=
  .binary .add (.neg (.binary .div (.number .one) (.number .zero)))
    (.call "pow" [.call "sqrt" [], .number .zero])

theorem quotientBeforeRoot_fails_as_quotient :
    quotientBeforeName.evaluate .standard = .error .divisionByZero ∧
      Relation.ReflTransGen (ExchangesLater .standard) quotientBeforeName quotientBeforeRoot ∧
      quotientBeforeRoot.evaluate .standard = .error .divisionByZero := by
  have hfault : quotientBeforeName.evaluate .standard = .error .divisionByZero := by
    decide +kernel
  have hfails : ¬ (Check.operation .div (.number .one) (.number .zero)).Passes .standard := by
    decide +kernel
  have hexchange : ExchangesLater .standard quotientBeforeName quotientBeforeRoot :=
    .intro (.right .add (.neg (.binary .div (.number .one) (.number .zero)))
      (.argument "pow" [] .hole [.number .zero])) (.name "x") (.call "sqrt" []) _
      (by simp [Context.checksBefore, checks]) hfails
  have hexchanges := Relation.ReflTransGen.single hexchange
  exact ⟨hfault, hexchanges,
    (evaluate_fails_as_first_check .standard quotientBeforeName).2.2.2 _ _ hfault hexchanges⟩

end Expr

end Reckoner
