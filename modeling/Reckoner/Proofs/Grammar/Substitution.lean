import Reckoner.Proofs.Expr.Context
import Reckoner.Proofs.Grammar.Blame

/-!
# Operands in Place of Numbers

A number within a phrase may be replaced by any operand, and the expression of the phrase is then
one context around that of the operand.  A bracket leads from a place to where a number would have
led, and so does a name with a bracket after it.  So what stands in a bracket may be replaced by
any other sum, whatever is written around it.
-/

namespace Reckoner.Grammar

open Reckoner.Expr (Context)

/-! ## Cutting at a lexeme -/

section

variable {α : Type} {x y : α} {l r before after : List α}

theorem cons_eq_append_cons (h : y :: l = before ++ x :: after) (hne : y ≠ x) :
    ∃ before', before = y :: before' ∧ l = before' ++ x :: after := by
  cases before with
  | nil => exact absurd (List.cons.inj h).1 hne
  | cons z before' =>
    obtain ⟨rfl, hl⟩ := List.cons.inj h
    exact ⟨before', rfl, hl⟩

/-- An element other than the one at the cut stands on one side of it. -/
theorem append_cons_eq_append_cons (h : l ++ y :: r = before ++ x :: after) (hne : y ≠ x) :
    (∃ after', l = before ++ x :: after' ∧ after = after' ++ y :: r) ∨
    (∃ before', before = l ++ y :: before' ∧ r = before' ++ x :: after) := by
  rcases List.append_eq_append_iff.mp h with ⟨middle, rfl, hmiddle⟩ | ⟨middle, rfl, hmiddle⟩
  · obtain ⟨before', rfl, hr⟩ := cons_eq_append_cons hmiddle hne
    exact .inr ⟨before', rfl, hr⟩
  · obtain ⟨after', rfl, hafter⟩ := cons_eq_append_cons hmiddle (Ne.symm hne)
    exact .inl ⟨after', rfl, hafter⟩

end

/-! ## Replacement -/

/-- Any operand may stand between these lexemes, in one context. -/
def Open {α : Type} (lexemes : α → List Lexeme) (expr : α → Expr) (before after : List Lexeme) :
    Prop :=
  ∃ context : Context, ∀ operand : Operand, ∃ phrase,
    lexemes phrase = before ++ (operand.lexemes ++ after) ∧
      expr phrase = context.fill operand.expr

/-- The same of arguments, one of which the operand is part of. -/
def OpenArguments (before after : List Lexeme) : Prop :=
  ∃ exprsBefore exprsAfter, ∃ context : Context, ∀ operand : Operand, ∃ arguments : Arguments,
    arguments.lexemes = before ++ (operand.lexemes ++ after) ∧
      arguments.exprs = exprsBefore ++ context.fill operand.expr :: exprsAfter

/-- A phrase within a larger one. -/
theorem Open.within {α β : Type} {lexemes : α → List Lexeme} {expr : α → Expr}
    {lexemes' : β → List Lexeme} {expr' : β → Expr} {before after before' after' : List Lexeme}
    (h : Open lexemes expr before after) (make : α → β) (around : Context)
    (hlexemes : ∀ phrase middle, lexemes phrase = before ++ (middle ++ after) →
      lexemes' (make phrase) = before' ++ (middle ++ after'))
    (hexpr : ∀ phrase, expr' (make phrase) = around.fill (expr phrase)) :
    Open lexemes' expr' before' after' := by
  obtain ⟨context, hcontext⟩ := h
  refine ⟨around.comp context, fun operand ↦ ?_⟩
  obtain ⟨phrase, hphrase, hfill⟩ := hcontext operand
  refine ⟨make phrase, hlexemes phrase operand.lexemes hphrase, ?_⟩
  rw [hexpr, hfill, Context.fill_comp]

theorem SumMark.lexeme_ne_number (mark : SumMark) (value : Binary64) :
    mark.lexeme ≠ .number value := by
  cases mark <;> exact nofun

theorem ProductMark.lexeme_ne_number (mark : ProductMark) (value : Binary64) :
    mark.lexeme ≠ .number value := by
  cases mark <;> exact nofun

mutual

/-- A number in a sum may be replaced by any operand. -/
theorem Sum.replace {value : Binary64} : ∀ (sum : Sum) {before after : List Lexeme},
    sum.lexemes = before ++ .number value :: after →
      Open Sum.lexemes Sum.expr before after
  | .single term, before, after, h => by
    rw [Sum.lexemes] at h
    exact (term.replace h).within Sum.single .hole
      (fun phrase middle hphrase ↦ by rw [Sum.lexemes, hphrase]) fun phrase ↦ rfl
  | .more left mark right, before, after, h => by
    rw [Sum.lexemes] at h
    rcases append_cons_eq_append_cons h (mark.lexeme_ne_number value) with
      ⟨after', hleft, rfl⟩ | ⟨before', rfl, hright⟩
    · exact (left.replace hleft).within (Sum.more · mark right)
        (.left mark.operator .hole right.expr)
        (fun phrase middle hphrase ↦ by simp [Sum.lexemes, hphrase]) fun phrase ↦ rfl
    · exact (right.replace hright).within (Sum.more left mark)
        (.right mark.operator left.expr .hole)
        (fun phrase middle hphrase ↦ by simp [Sum.lexemes, hphrase]) fun phrase ↦ rfl

theorem Product.replace {value : Binary64} : ∀ (product : Product) {before after : List Lexeme},
    product.lexemes = before ++ .number value :: after →
      Open Product.lexemes Product.expr before after
  | .single factor, before, after, h => by
    rw [Product.lexemes] at h
    exact (factor.replace h).within Product.single .hole
      (fun phrase middle hphrase ↦ by rw [Product.lexemes, hphrase]) fun phrase ↦ rfl
  | .more left mark right, before, after, h => by
    rw [Product.lexemes] at h
    rcases append_cons_eq_append_cons h (mark.lexeme_ne_number value) with
      ⟨after', hleft, rfl⟩ | ⟨before', rfl, hright⟩
    · exact (left.replace hleft).within (Product.more · mark right)
        (.left mark.operator .hole right.expr)
        (fun phrase middle hphrase ↦ by simp [Product.lexemes, hphrase]) fun phrase ↦ rfl
    · exact (right.replace hright).within (Product.more left mark)
        (.right mark.operator left.expr .hole)
        (fun phrase middle hphrase ↦ by simp [Product.lexemes, hphrase]) fun phrase ↦ rfl

theorem Negation.replace {value : Binary64} : ∀ (negation : Negation) {before after : List Lexeme},
    negation.lexemes = before ++ .number value :: after →
      Open Negation.lexemes Negation.expr before after
  | .plain power, before, after, h => by
    rw [Negation.lexemes] at h
    exact (power.replace h).within Negation.plain .hole
      (fun phrase middle hphrase ↦ by rw [Negation.lexemes, hphrase]) fun phrase ↦ rfl
  | .minus operand, before, after, h => by
    rw [Negation.lexemes] at h
    obtain ⟨before', rfl, hoperand⟩ := cons_eq_append_cons h nofun
    exact (operand.replace hoperand).within Negation.minus (.neg .hole)
      (fun phrase middle hphrase ↦ by simp [Negation.lexemes, hphrase]) fun phrase ↦ rfl

theorem Power.replace {value : Binary64} : ∀ (power : Power) {before after : List Lexeme},
    power.lexemes = before ++ .number value :: after →
      Open Power.lexemes Power.expr before after
  | .plain base, before, after, h => by
    rw [Power.lexemes] at h
    exact (base.replace h).within Power.plain .hole
      (fun phrase middle hphrase ↦ by rw [Power.lexemes, hphrase]) fun phrase ↦ rfl
  | .raised base exponent, before, after, h => by
    rw [Power.lexemes] at h
    rcases append_cons_eq_append_cons h nofun with
      ⟨after', hbase, rfl⟩ | ⟨before', rfl, hexponent⟩
    · exact (base.replace hbase).within (Power.raised · exponent) (.left .pow .hole exponent.expr)
        (fun phrase middle hphrase ↦ by simp [Power.lexemes, hphrase]) fun phrase ↦ rfl
    · exact (exponent.replace hexponent).within (Power.raised base) (.right .pow base.expr .hole)
        (fun phrase middle hphrase ↦ by simp [Power.lexemes, hphrase]) fun phrase ↦ rfl

theorem Operand.replace {value : Binary64} : ∀ (operand : Operand) {before after : List Lexeme},
    operand.lexemes = before ++ .number value :: after →
      Open Operand.lexemes Operand.expr before after
  | .number value', before, after, h => by
    rw [Operand.lexemes] at h
    cases before with
    | nil =>
      obtain ⟨-, rfl⟩ := List.cons.inj h
      exact ⟨.hole, fun operand ↦ ⟨operand, by simp, rfl⟩⟩
    | cons first before => simp at h
  | .name text, before, after, h => by
    rw [Operand.lexemes] at h
    obtain ⟨before', rfl, hnil⟩ := cons_eq_append_cons h nofun
    simp at hnil
  | .bareCall function, before, after, h => by
    rw [Operand.lexemes] at h
    obtain ⟨before₁, rfl, h₁⟩ := cons_eq_append_cons h nofun
    obtain ⟨before₂, rfl, h₂⟩ := cons_eq_append_cons h₁ nofun
    obtain ⟨before₃, rfl, hnil⟩ := cons_eq_append_cons h₂ nofun
    simp at hnil
  | .call function arguments, before, after, h => by
    rw [Operand.lexemes] at h
    obtain ⟨before₁, rfl, h₁⟩ := cons_eq_append_cons h nofun
    obtain ⟨before₂, rfl, h₂⟩ := cons_eq_append_cons h₁ nofun
    rcases append_cons_eq_append_cons h₂ nofun with
      ⟨after', harguments, rfl⟩ | ⟨before₃, -, hnil⟩
    · obtain ⟨exprsBefore, exprsAfter, context, hcontext⟩ := arguments.replace harguments
      refine ⟨.argument function exprsBefore context exprsAfter, fun operand ↦ ?_⟩
      obtain ⟨arguments', hlexemes, hexprs⟩ := hcontext operand
      refine ⟨.call function arguments', ?_, ?_⟩
      · simp [Operand.lexemes, hlexemes]
      · rw [Operand.expr, hexprs, Context.fill]
    · simp at hnil
  | .group sum, before, after, h => by
    rw [Operand.lexemes] at h
    obtain ⟨before₁, rfl, h₁⟩ := cons_eq_append_cons h nofun
    rcases append_cons_eq_append_cons h₁ nofun with ⟨after', hsum, rfl⟩ | ⟨before₂, -, hnil⟩
    · exact (sum.replace hsum).within Operand.group .hole
        (fun phrase middle hphrase ↦ by simp [Operand.lexemes, hphrase]) fun phrase ↦ rfl
    · simp at hnil

theorem Arguments.replace {value : Binary64} :
    ∀ (arguments : Arguments) {before after : List Lexeme},
    arguments.lexemes = before ++ .number value :: after → OpenArguments before after
  | .last sum, before, after, h => by
    rw [Arguments.lexemes] at h
    obtain ⟨context, hcontext⟩ := sum.replace h
    refine ⟨[], [], context, fun operand ↦ ?_⟩
    obtain ⟨sum', hlexemes, hexpr⟩ := hcontext operand
    exact ⟨.last sum', hlexemes, by rw [Arguments.exprs, hexpr]; rfl⟩
  | .more first rest, before, after, h => by
    rw [Arguments.lexemes] at h
    rcases append_cons_eq_append_cons h nofun with
      ⟨after', hfirst, rfl⟩ | ⟨before', rfl, hrest⟩
    · obtain ⟨context, hcontext⟩ := first.replace hfirst
      refine ⟨[], rest.exprs, context, fun operand ↦ ?_⟩
      obtain ⟨first', hlexemes, hexpr⟩ := hcontext operand
      refine ⟨.more first' rest, ?_, ?_⟩
      · simp [Arguments.lexemes, hlexemes]
      · rw [Arguments.exprs, hexpr]
        rfl
    · obtain ⟨exprsBefore, exprsAfter, context, hcontext⟩ := rest.replace hrest
      refine ⟨first.expr :: exprsBefore, exprsAfter, context, fun operand ↦ ?_⟩
      obtain ⟨rest', hlexemes, hexprs⟩ := hcontext operand
      refine ⟨.more first rest', ?_, ?_⟩
      · simp [Arguments.lexemes, hlexemes]
      · rw [Arguments.exprs, hexprs]
        rfl

end

/-! ## Brackets -/

namespace Place

theorem goOn_ne_name {stack stack' : List Bracket} (lexeme : Lexeme) :
    goOn stack lexeme ≠ some (name stack') := by
  rcases stack with _ | ⟨_ | _, outer⟩ <;> cases lexeme <;> exact nofun

theorem beginOperand_eq_name {stack stack' : List Bracket} {lexeme : Lexeme}
    (h : beginOperand stack lexeme = some (name stack')) :
    stack = stack' ∧ ∃ text, lexeme = .name text := by
  cases lexeme <;> cases h
  exact ⟨rfl, _, rfl⟩

/-- Right after a name, a number could have come in its place. -/
theorem step_eq_name {place : Place} {stack : List Bracket} {lexeme : Lexeme}
    (h : place.step lexeme = some (name stack)) :
    (∃ text, lexeme = .name text) ∧ ∀ value, place.step (.number value) = some (done stack) := by
  cases place with
  | operand stack' =>
    obtain ⟨rfl, htext⟩ := beginOperand_eq_name h
    exact ⟨htext, fun value ↦ rfl⟩
  | argument stack' =>
    rw [step] at h
    split at h
    · cases h
    · obtain ⟨rfl, htext⟩ := beginOperand_eq_name h
      exact ⟨htext, fun value ↦ rfl⟩
  | name stack' =>
    rw [step] at h
    split at h
    · cases h
    · exact absurd h (goOn_ne_name lexeme)
  | done stack' => exact absurd h (goOn_ne_name lexeme)
  | finished => cases h

/-- A group leads from a place for an operand to where a number leads. -/
theorem operand_run_group (sum : Sum) (stack : List Bracket) (rest : List Lexeme) :
    (operand stack).run (.opening :: (sum.lexemes ++ .closing :: rest)) =
      (done stack).run rest := by
  have hsum := sum.settled (by decide : Lexeme.closing ≠ .opening)
  exact hsum.run_append (.group :: stack) rest

/-- Just inside a call, too. -/
theorem argument_run_group (sum : Sum) (stack : List Bracket) (rest : List Lexeme) :
    (argument stack).run (.opening :: (sum.lexemes ++ .closing :: rest)) =
      (done (.call :: stack)).run rest :=
  operand_run_group sum (.call :: stack) rest

/-- After a name, a bracket holds the argument of a call. -/
theorem name_run_call (sum : Sum) (stack : List Bracket) (rest : List Lexeme) :
    (name stack).run (.opening :: (sum.lexemes ++ .closing :: rest)) = (done stack).run rest := by
  obtain ⟨place, hrun, hstep, hwanted⟩ :=
    sum.settled (by decide : Lexeme.closing ≠ .opening) (.call :: stack)
  have hplace : place.wanted ≠ .operand := by
    rw [hwanted]
    simp [wanted, wantedAfter]
  have hargument := argument_run hrun hplace
  change (argument stack).run (sum.lexemes ++ .closing :: rest) = _
  rw [run_append, hargument, Option.bind_some, run_cons, hstep]
  rfl

end Place

/-- Where a number is possible and the rest goes on after it, any operand is. -/
theorem open_of_run {before after : List Lexeme} {place : Place} {stack : List Bracket}
    (hbefore : (Place.operand []).run before = some place)
    (hnumber : ∀ value, place.step (.number value) = some (.done stack))
    (hafter : (Place.done stack).run (after ++ [.finish]) = some .finished) :
    Open Sum.lexemes Sum.expr before after := by
  have hsentence : Sentence (before ++ .number .zero :: (after ++ [.finish])) := by
    rw [sentence_iff_run, Place.run_append, hbefore, Option.bind_some, Place.run_cons, hnumber,
      Option.bind_some, hafter]
  obtain ⟨sum, hsum⟩ := hsentence
  have hlexemes : (before ++ .number .zero :: after) ++ [.finish] = sum.lexemes ++ [.finish] := by
    rw [← hsum, List.append_assoc, List.cons_append]
  exact sum.replace (List.append_cancel_right hlexemes).symm

/-- A bracket in place of a number may hold any sum. -/
theorem Open.group {before after : List Lexeme} (h : Open Sum.lexemes Sum.expr before after) :
    ∃ context : Context, ∀ sum : Sum,
      Derives (before ++ .opening :: (sum.lexemes ++ .closing :: after))
        (context.fill sum.expr) := by
  obtain ⟨context, hcontext⟩ := h
  refine ⟨context, fun sum ↦ ?_⟩
  obtain ⟨phrase, hlexemes, hexpr⟩ := hcontext (.group sum)
  refine ⟨phrase, ?_, hexpr⟩
  rw [hlexemes]
  simp [Operand.lexemes]

/-- A call in place of a number may hold any sum. -/
theorem Open.call {before after : List Lexeme} (h : Open Sum.lexemes Sum.expr before after)
    (function : String) : ∃ context : Context, ∀ sum : Sum,
      Derives (before ++ .name function :: .opening :: (sum.lexemes ++ .closing :: after))
        (context.fill sum.expr) := by
  obtain ⟨context, hcontext⟩ := h
  refine ⟨context.comp (.argument function [] .hole []), fun sum ↦ ?_⟩
  obtain ⟨phrase, hlexemes, hexpr⟩ := hcontext (.call function (.last sum))
  refine ⟨phrase, ?_, ?_⟩
  · rw [hlexemes]
    simp [Operand.lexemes, Arguments.lexemes]
  · rw [hexpr, Context.fill_comp]
    rfl

/-- What stands in a bracket may be replaced by any other sum. -/
theorem Derives.exists_context {before after : List Lexeme} {sum : Sum} {expr : Expr}
    (h : Derives (before ++ .opening :: (sum.lexemes ++ .closing :: after)) expr) :
    ∃ context : Context, ∀ sum' : Sum,
      Derives (before ++ .opening :: (sum'.lexemes ++ .closing :: after))
        (context.fill sum'.expr) := by
  obtain ⟨whole, hwhole, -⟩ := h
  have hsentence :
      Sentence (before ++ .opening :: (sum.lexemes ++ .closing :: (after ++ [.finish]))) := by
    refine ⟨whole, ?_⟩
    simp [hwhole]
  have hrun := hsentence.run
  rw [Place.run_append, Option.bind_eq_some_iff] at hrun
  obtain ⟨place, hbefore, hbracket⟩ := hrun
  cases place with
  | operand stack =>
    rw [Place.operand_run_group] at hbracket
    exact (open_of_run hbefore (fun _ ↦ rfl) hbracket).group
  | argument stack =>
    rw [Place.argument_run_group] at hbracket
    exact (open_of_run hbefore (fun _ ↦ rfl) hbracket).group
  | name stack =>
    rw [Place.name_run_call] at hbracket
    rcases List.eq_nil_or_concat' before with rfl | ⟨before, lexeme, rfl⟩
    · cases hbefore
    · rw [Place.run_append, Option.bind_eq_some_iff] at hbefore
      obtain ⟨place, hbefore, hstep⟩ := hbefore
      rw [Place.run_cons, Option.bind_eq_some_iff] at hstep
      obtain ⟨next, hstep, hnext⟩ := hstep
      cases hnext
      obtain ⟨⟨function, rfl⟩, hnumber⟩ := Place.step_eq_name hstep
      have hcall := (open_of_run hbefore hnumber hbracket).call function
      simpa using hcall
  | done stack => cases hbracket
  | finished => cases hbracket

end Reckoner.Grammar
