import Reckoner.Proofs.Grammar.Place
import Reckoner.Proofs.Names.StandardFunctions

/-!
# The Uses of Names

A name is used as a constant, or as a function with a number of arguments.  The uses in an
expression are those of its tree from left to right, and the uses in a text are those of its
lexemes, where a name is a function if an opening bracket follows.  Both are the same list: no name
is lost, added or moved to the other role between the lexemes and the tree.

An evaluation that succeeds has admitted every use, and one that fails over a name has met a use of
it that the vocabulary does not have.
-/

namespace Reckoner

/-! ## Uses -/

/-- A use of a name. -/
inductive Use where
  | constant (text : String)
  /-- A call with so many arguments. -/
  | call (function : String) (given : Nat)
deriving DecidableEq

namespace Use

def name : Use → String
  | constant text => text
  | call function _ => function

/-- The vocabulary has the name in this role. -/
def Known (vocabulary : Vocabulary) : Use → Prop
  | constant text => (vocabulary.constant? text).isSome
  | call function _ => (vocabulary.function? function).isSome

/-- The name is known in this role, and a function takes that many arguments. -/
def Admitted (vocabulary : Vocabulary) : Use → Prop
  | constant text => (vocabulary.constant? text).isSome
  | call text given => ∃ function, vocabulary.function? text = some function ∧
      function.arity.accepts given

end Use

/-! ## Uses in expressions -/

namespace Expr

mutual

/-- The uses of names in an expression, from left to right. -/
def uses : Expr → List Use
  | number _ => []
  | name text => [.constant text]
  | call function arguments => .call function arguments.length :: usesOfAll arguments
  | neg operand => operand.uses
  | binary _ left right => left.uses ++ right.uses

def usesOfAll : List Expr → List Use
  | [] => []
  | first :: rest => first.uses ++ usesOfAll rest

end

variable {vocabulary : Vocabulary}

theorem finiteOnly_ne_unknownName (value : Binary64) (text : String) :
    value.finiteOnly ≠ .error (.unknownName text) := by
  rw [Binary64.finiteOnly]
  split <;> simp

theorem callee_eq_ok {text : String} {given : Nat} {function : Function}
    (h : callee vocabulary text given = .ok function) :
    vocabulary.function? text = some function ∧ function.arity.accepts given := by
  unfold callee at h
  split at h
  case h_1 => cases h
  case h_2 function' hfunction =>
    split at h
    case isTrue haccepts =>
      cases h
      exact ⟨hfunction, haccepts⟩
    case isFalse => cases h

theorem callee_eq_unknownName {text name : String} {given : Nat}
    (h : callee vocabulary text given = .error (.unknownName name)) :
    text = name ∧ vocabulary.function? text = none := by
  unfold callee at h
  split at h
  case h_1 hnone =>
    cases h
    exact ⟨rfl, hnone⟩
  case h_2 =>
    split at h <;> cases h

mutual

/-- An evaluation that succeeds has admitted every use. -/
theorem admitted_of_evaluate {value : Binary64} : ∀ expr : Expr,
    expr.evaluate vocabulary = .ok value → ∀ use ∈ expr.uses, use.Admitted vocabulary
  | number _, _ => by
    intro use huse
    cases huse
  | name text, h => by
    intro use huse
    rw [uses, List.mem_singleton] at huse
    subst huse
    rw [evaluate] at h
    cases hconstant : vocabulary.constant? text with
    | none =>
      rw [hconstant] at h
      cases h
    | some value => simp [Use.Admitted, hconstant]
  | neg operand, h => by
    rw [evaluate, bind_eq_ok_iff] at h
    obtain ⟨x, hx, -⟩ := h
    exact operand.admitted_of_evaluate hx
  | binary operator left right, h => by
    rw [evaluate, bind_eq_ok_iff] at h
    obtain ⟨x, hx, h⟩ := h
    rw [bind_eq_ok_iff] at h
    obtain ⟨y, hy, -⟩ := h
    intro use huse
    rw [uses, List.mem_append] at huse
    rcases huse with huse | huse
    · exact left.admitted_of_evaluate hx use huse
    · exact right.admitted_of_evaluate hy use huse
  | call text arguments, h => by
    rw [evaluate, bind_eq_ok_iff] at h
    obtain ⟨function, hfunction, h⟩ := h
    rw [bind_eq_ok_iff] at h
    obtain ⟨values, hvalues, -⟩ := h
    intro use huse
    rw [uses, List.mem_cons] at huse
    rcases huse with rfl | huse
    · exact ⟨function, callee_eq_ok hfunction⟩
    · exact admitted_of_evaluateAll arguments hvalues use huse

theorem admitted_of_evaluateAll {values : List Binary64} : ∀ exprs : List Expr,
    evaluateAll vocabulary exprs = .ok values → ∀ use ∈ usesOfAll exprs, use.Admitted vocabulary
  | [], _ => by
    intro use huse
    cases huse
  | first :: rest, h => by
    rw [evaluateAll, bind_eq_ok_iff] at h
    obtain ⟨value, hvalue, h⟩ := h
    rw [bind_eq_ok_iff] at h
    obtain ⟨values, hvalues, -⟩ := h
    intro use huse
    rw [usesOfAll, List.mem_append] at huse
    rcases huse with huse | huse
    · exact first.admitted_of_evaluate hvalue use huse
    · exact admitted_of_evaluateAll rest hvalues use huse

end

end Expr

/-! ## Unknown names -/

/-- No function of the vocabulary finds fault with a name. -/
def Vocabulary.BlamesNoName (vocabulary : Vocabulary) : Prop :=
  ∀ text function, vocabulary.function? text = some function →
    ∀ arguments name, function.apply arguments ≠ .error (.unknownName name)

namespace Expr

variable {vocabulary : Vocabulary} {text : String}

mutual

/-- An evaluation that fails over a name has met a use of it that is not known. -/
theorem unknown_of_evaluate (hsilent : vocabulary.BlamesNoName) : ∀ expr : Expr,
    expr.evaluate vocabulary = .error (.unknownName text) →
      ∃ use ∈ expr.uses, use.name = text ∧ ¬ use.Known vocabulary
  | number value, h => by
    rw [evaluate] at h
    exact absurd h (finiteOnly_ne_unknownName value text)
  | name text', h => by
    rw [evaluate] at h
    cases hconstant : vocabulary.constant? text' with
    | some value =>
      rw [hconstant] at h
      exact absurd h (finiteOnly_ne_unknownName value text)
    | none =>
      rw [hconstant] at h
      cases h
      refine ⟨.constant text, List.mem_singleton_self _, rfl, ?_⟩
      simp [Use.Known, hconstant]
  | neg operand, h => by
    rw [evaluate, bind_eq_error_iff] at h
    rcases h with h | ⟨x, -, h⟩
    · exact operand.unknown_of_evaluate hsilent h
    · exact absurd h (finiteOnly_ne_unknownName _ text)
  | binary operator left right, h => by
    rw [evaluate, bind_eq_error_iff] at h
    simp only [bind_eq_error_iff] at h
    rw [uses]
    rcases h with h | ⟨x, -, h | ⟨y, -, h | ⟨value, -, h⟩⟩⟩
    · obtain ⟨use, huse, hunknown⟩ := left.unknown_of_evaluate hsilent h
      exact ⟨use, List.mem_append_left _ huse, hunknown⟩
    · obtain ⟨use, huse, hunknown⟩ := right.unknown_of_evaluate hsilent h
      exact ⟨use, List.mem_append_right _ huse, hunknown⟩
    · exact False.elim (Operator.apply_fault h)
    · exact absurd h (finiteOnly_ne_unknownName value text)
  | call function arguments, h => by
    rw [evaluate, bind_eq_error_iff] at h
    simp only [bind_eq_error_iff] at h
    rw [uses]
    rcases h with h | ⟨f, hf, h | ⟨values, -, h | ⟨value, -, h⟩⟩⟩
    · obtain ⟨rfl, hnone⟩ := callee_eq_unknownName h
      refine ⟨.call function arguments.length, List.mem_cons_self, rfl, ?_⟩
      simp [Use.Known, hnone]
    · obtain ⟨use, huse, hunknown⟩ := unknown_of_evaluateAll hsilent arguments h
      exact ⟨use, List.mem_cons_of_mem _ huse, hunknown⟩
    · exact absurd h (hsilent function f (callee_eq_ok hf).1 values text)
    · exact absurd h (finiteOnly_ne_unknownName value text)

theorem unknown_of_evaluateAll (hsilent : vocabulary.BlamesNoName) : ∀ exprs : List Expr,
    evaluateAll vocabulary exprs = .error (.unknownName text) →
      ∃ use ∈ usesOfAll exprs, use.name = text ∧ ¬ use.Known vocabulary
  | [], h => by cases h
  | first :: rest, h => by
    rw [evaluateAll, bind_eq_error_iff] at h
    simp only [bind_eq_error_iff] at h
    rw [usesOfAll]
    rcases h with h | ⟨value, -, h | ⟨values, -, h⟩⟩
    · obtain ⟨use, huse, hunknown⟩ := first.unknown_of_evaluate hsilent h
      exact ⟨use, List.mem_append_left _ huse, hunknown⟩
    · obtain ⟨use, huse, hunknown⟩ := unknown_of_evaluateAll hsilent rest h
      exact ⟨use, List.mem_append_right _ huse, hunknown⟩
    · cases h

end

end Expr

/-! ## Uses in lexemes -/

namespace Lexeme

/-- The commas before the closing bracket that ends what is open here, outside of all brackets
that open further in; `depth` of these are open already. -/
def commas : (depth : Nat) → List Lexeme → Nat
  | _, [] => 0
  | depth, .opening :: rest => commas (depth + 1) rest
  | 0, .closing :: _ => 0
  | depth + 1, .closing :: rest => commas depth rest
  | 0, .comma :: rest => commas 0 rest + 1
  | depth, _ :: rest => commas depth rest

/-- The number of arguments after the opening bracket of a call. -/
def argumentCount : List Lexeme → Nat
  | .closing :: _ => 0
  | inside => commas 0 inside + 1

def useOf (text : String) : List Lexeme → Use
  | .opening :: inside => .call text (argumentCount inside)
  | _ => .constant text

def usesOf : List Lexeme → List Use
  | [] => []
  | .name text :: rest => useOf text rest :: usesOf rest
  | _ :: rest => usesOf rest

theorem mem_usesOf_append {before rest : List Lexeme} {use : Use} (h : use ∈ usesOf rest) :
    use ∈ usesOf (before ++ rest) := by
  induction before with
  | nil => exact h
  | cons lexeme before ih => cases lexeme <;> simp [usesOf, ih]

theorem exists_of_mem_usesOf {lexemes : List Lexeme} {use : Use} (h : use ∈ usesOf lexemes) :
    ∃ before text after, lexemes = before ++ .name text :: after ∧ use = useOf text after := by
  induction lexemes with
  | nil => cases h
  | cons lexeme rest ih =>
    have hlater : use ∈ usesOf rest → ∃ before text after,
        lexeme :: rest = before ++ .name text :: after ∧ use = useOf text after := by
      intro hmem
      obtain ⟨before, text, after, hrest, huse⟩ := ih hmem
      exact ⟨lexeme :: before, text, after, by rw [hrest, List.cons_append], huse⟩
    cases lexeme with
    | name text =>
      rw [usesOf, List.mem_cons] at h
      rcases h with huse | hmem
      · exact ⟨[], text, rest, rfl, huse⟩
      · exact hlater hmem
    | _ => exact hlater h

/-- The uses are those at the names. -/
theorem mem_usesOf_iff {lexemes : List Lexeme} {use : Use} :
    use ∈ usesOf lexemes ↔
      ∃ before text after, lexemes = before ++ .name text :: after ∧ use = useOf text after := by
  constructor
  · exact exists_of_mem_usesOf
  · rintro ⟨before, text, after, rfl, rfl⟩
    exact mem_usesOf_append List.mem_cons_self

end Lexeme

/-! ## Uses in phrases -/

namespace Grammar

open Lexeme

mutual

/-- The commas of a phrase all stand in brackets of its own. -/
theorem Sum.commas_append (depth : Nat) (rest : List Lexeme) : ∀ sum : Sum,
    commas depth (sum.lexemes ++ rest) = commas depth rest
  | .single term => by
    rw [Sum.lexemes, term.commas_append]
  | .more left mark right => by
    rw [Sum.lexemes, List.append_assoc, left.commas_append, List.cons_append]
    cases mark <;> cases depth <;> exact right.commas_append _ rest

theorem Product.commas_append (depth : Nat) (rest : List Lexeme) : ∀ product : Product,
    commas depth (product.lexemes ++ rest) = commas depth rest
  | .single factor => by
    rw [Product.lexemes, factor.commas_append]
  | .more left mark right => by
    rw [Product.lexemes, List.append_assoc, left.commas_append, List.cons_append]
    cases mark <;> cases depth <;> exact right.commas_append _ rest

theorem Negation.commas_append (depth : Nat) (rest : List Lexeme) : ∀ negation : Negation,
    commas depth (negation.lexemes ++ rest) = commas depth rest
  | .plain power => by
    rw [Negation.lexemes, power.commas_append]
  | .minus operand => by
    rw [Negation.lexemes, List.cons_append]
    cases depth <;> exact operand.commas_append _ rest

theorem Power.commas_append (depth : Nat) (rest : List Lexeme) : ∀ power : Power,
    commas depth (power.lexemes ++ rest) = commas depth rest
  | .plain base => by
    rw [Power.lexemes, base.commas_append]
  | .raised base exponent => by
    rw [Power.lexemes, List.append_assoc, base.commas_append, List.cons_append]
    cases depth <;> exact exponent.commas_append _ rest

theorem Operand.commas_append (depth : Nat) (rest : List Lexeme) : ∀ operand : Operand,
    commas depth (operand.lexemes ++ rest) = commas depth rest
  | .number value => by cases depth <;> rfl
  | .name text => by cases depth <;> rfl
  | .bareCall function => by cases depth <;> rfl
  | .call function arguments => by
    have hinside := arguments.commas_append_inside depth (.closing :: rest)
    cases depth <;> simpa [Operand.lexemes, commas] using hinside
  | .group sum => by
    have hinside := sum.commas_append (depth + 1) (.closing :: rest)
    cases depth <;> simpa [Operand.lexemes, commas] using hinside

theorem Arguments.commas_append_inside (depth : Nat) (rest : List Lexeme) :
    ∀ arguments : Arguments,
    commas (depth + 1) (arguments.lexemes ++ rest) = commas (depth + 1) rest
  | .last sum => by
    rw [Arguments.lexemes, sum.commas_append]
  | .more first others => by
    rw [Arguments.lexemes, List.append_assoc, first.commas_append, List.cons_append]
    exact others.commas_append_inside depth rest

end

theorem Arguments.commas_add_one (rest : List Lexeme) : ∀ arguments : Arguments,
    commas 0 (arguments.lexemes ++ .closing :: rest) + 1 = arguments.exprs.length
  | .last sum => by
    rw [Arguments.lexemes, sum.commas_append]
    rfl
  | .more first others => by
    rw [Arguments.lexemes, List.append_assoc, first.commas_append, List.cons_append, commas,
      others.commas_add_one, Arguments.exprs, List.length_cons]

theorem Arguments.argumentCount_lexemes (arguments : Arguments) (rest : List Lexeme) :
    argumentCount (arguments.lexemes ++ .closing :: rest) = arguments.exprs.length := by
  rw [← arguments.commas_add_one rest]
  obtain ⟨place, hrun, hstep, -⟩ := arguments.settled (by decide : Lexeme.closing ≠ .opening) []
  cases harguments : arguments.lexemes with
  | nil =>
    rw [harguments] at hrun
    cases hrun
    cases hstep
  | cons first others =>
    have hne : first ≠ .closing := by
      rintro rfl
      rw [harguments] at hrun
      cases hrun
    cases first <;> first | rfl | exact absurd rfl hne

mutual

/-- The uses in the lexemes of a phrase are those in its expression. -/
theorem Sum.usesOf_append {next : Lexeme} (hnext : next ≠ .opening) (rest : List Lexeme) :
    ∀ sum : Sum,
    usesOf (sum.lexemes ++ next :: rest) = sum.expr.uses ++ usesOf (next :: rest)
  | .single term => by
    rw [Sum.lexemes, Sum.expr, term.usesOf_append hnext]
  | .more left mark right => by
    have hright := right.usesOf_append hnext rest
    have hmark : mark.lexeme ≠ .opening ∧ usesOf (mark.lexeme :: (right.lexemes ++ next :: rest)) =
        usesOf (right.lexemes ++ next :: rest) := by
      cases mark <;> exact ⟨by decide, rfl⟩
    rw [Sum.lexemes, Sum.expr, List.append_assoc, List.cons_append, left.usesOf_append hmark.1,
      hmark.2, hright, Expr.uses, List.append_assoc]

theorem Product.usesOf_append {next : Lexeme} (hnext : next ≠ .opening) (rest : List Lexeme) :
    ∀ product : Product,
    usesOf (product.lexemes ++ next :: rest) = product.expr.uses ++ usesOf (next :: rest)
  | .single factor => by
    rw [Product.lexemes, Product.expr, factor.usesOf_append hnext]
  | .more left mark right => by
    have hright := right.usesOf_append hnext rest
    have hmark : mark.lexeme ≠ .opening ∧ usesOf (mark.lexeme :: (right.lexemes ++ next :: rest)) =
        usesOf (right.lexemes ++ next :: rest) := by
      cases mark <;> exact ⟨by decide, rfl⟩
    rw [Product.lexemes, Product.expr, List.append_assoc, List.cons_append,
      left.usesOf_append hmark.1, hmark.2, hright, Expr.uses, List.append_assoc]

theorem Negation.usesOf_append {next : Lexeme} (hnext : next ≠ .opening) (rest : List Lexeme) :
    ∀ negation : Negation,
    usesOf (negation.lexemes ++ next :: rest) = negation.expr.uses ++ usesOf (next :: rest)
  | .plain power => by
    rw [Negation.lexemes, Negation.expr, power.usesOf_append hnext]
  | .minus operand => by
    rw [Negation.lexemes, Negation.expr, List.cons_append, usesOf, operand.usesOf_append hnext,
      Expr.uses]
    exact nofun

theorem Power.usesOf_append {next : Lexeme} (hnext : next ≠ .opening) (rest : List Lexeme) :
    ∀ power : Power,
    usesOf (power.lexemes ++ next :: rest) = power.expr.uses ++ usesOf (next :: rest)
  | .plain base => by
    rw [Power.lexemes, Power.expr, base.usesOf_append hnext]
  | .raised base exponent => by
    rw [Power.lexemes, Power.expr, List.append_assoc, List.cons_append,
      base.usesOf_append (by decide), usesOf, exponent.usesOf_append hnext, Expr.uses,
      List.append_assoc]
    exact nofun

theorem Operand.usesOf_append {next : Lexeme} (hnext : next ≠ .opening) (rest : List Lexeme) :
    ∀ operand : Operand,
    usesOf (operand.lexemes ++ next :: rest) = operand.expr.uses ++ usesOf (next :: rest)
  | .number value => rfl
  | .name text => by
    cases next <;> first | rfl | exact absurd rfl hnext
  | .bareCall function => rfl
  | .call function arguments => by
    have hcount := arguments.argumentCount_lexemes (next :: rest)
    have harguments :=
      arguments.usesOf_append (by decide : Lexeme.closing ≠ .opening) (next :: rest)
    simp only [Operand.lexemes, List.cons_append, List.append_assoc, List.nil_append, usesOf, useOf,
      hcount, harguments, Operand.expr, Expr.uses]
  | .group sum => by
    have hsum := sum.usesOf_append (by decide : Lexeme.closing ≠ .opening) (next :: rest)
    simp only [Operand.lexemes, List.cons_append, List.append_assoc, List.nil_append, usesOf, hsum,
      Operand.expr]

theorem Arguments.usesOf_append {next : Lexeme} (hnext : next ≠ .opening) (rest : List Lexeme) :
    ∀ arguments : Arguments,
    usesOf (arguments.lexemes ++ next :: rest) =
      Expr.usesOfAll arguments.exprs ++ usesOf (next :: rest)
  | .last sum => by
    rw [Arguments.lexemes, Arguments.exprs, sum.usesOf_append hnext, Expr.usesOfAll,
      Expr.usesOfAll, List.append_nil]
  | .more first others => by
    rw [Arguments.lexemes, Arguments.exprs, List.append_assoc, List.cons_append,
      first.usesOf_append (by decide), usesOf, others.usesOf_append hnext, Expr.usesOfAll,
      List.append_assoc]
    exact nofun

end

end Grammar

end Reckoner
