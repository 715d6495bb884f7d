import Reckoner.Proofs.Grammar.Outcome

/-!
# Reading Phrases

Every phrase is read as what it stands for, in all surroundings: from the place where its lexemes
begin to the place after them, if nothing follows that would go on with it.  This is so exactly if
the budget covers its nesting and the limit the height of its tree; otherwise the reading is refused
because of the depth, and for no other reason.
-/

namespace Reckoner.Grammar

open Cursor

/-! ## Nodes of expressions -/

def nodeOf (expr : Expr) : Node := ⟨expr, expr.depth, rfl⟩

theorem eq_nodeOf (node : Node) : node = nodeOf node.expr := by
  obtain ⟨expr, height, rfl⟩ := node
  rfl

theorem map_nodeOf (exprs : List Expr) : (exprs.map nodeOf).map Node.expr = exprs := by
  rw [List.map_map]
  exact List.map_id exprs

theorem passClosing_eq_ok {c : Cursor} (h : c.current.lexeme = .closing) (wanted : Wanted) :
    c.passClosing wanted = .ok c.advance := if_pos h

/-! ## What only the depth can refuse -/

/-- The attempt comes to the outcome if all fits within the limit, and is refused because of the
depth otherwise. -/
structure Guarded {α : Type} (limit : Nat) (fits : Prop) (outcome attempt : Except Fault α) :
    Prop where
  fit : fits → attempt = outcome
  deep : ¬ fits → attempt = .error (.tooDeep limit)

section

variable {α β : Type} {limit : Nat} {p q both : Prop} {a : α}
  {outcome outcome' attempt : Except Fault α} {final : Except Fault β}

theorem guarded_refl (h : p) (attempt : Except Fault α) : Guarded limit p attempt attempt :=
  ⟨fun _ ↦ rfl, fun hnot ↦ absurd h hnot⟩

theorem Guarded.congr (h : Guarded limit p outcome attempt) (hpq : q ↔ p) :
    Guarded limit q outcome attempt :=
  ⟨fun hq ↦ h.fit (hpq.mp hq), fun hnot ↦ h.deep fun hp ↦ hnot (hpq.mpr hp)⟩

theorem Guarded.trans (h : Guarded limit p outcome attempt)
    (hnext : p → Guarded limit q outcome' outcome) (hboth : both ↔ p ∧ q) :
    Guarded limit both outcome' attempt := by
  by_cases hp : p
  · rw [h.fit hp]
    exact (hnext hp).congr (hboth.trans (and_iff_right hp))
  · rw [h.deep hp]
    exact ⟨fun hall ↦ absurd (hboth.mp hall).1 hp, fun _ ↦ rfl⟩

/-- Two attempts after each other fit if both do. -/
theorem Guarded.bind {next : α → Except Fault β} (h : Guarded limit p (.ok a) attempt)
    (hnext : p → Guarded limit q final (next a)) (hboth : both ↔ p ∧ q) :
    Guarded limit both final (attempt >>= next) := by
  have hfirst : Guarded limit p (next a) (attempt >>= next) := by
    constructor
    · intro hp
      rw [h.fit hp]
      rfl
    · intro hnot
      rw [h.deep hnot]
      rfl
  exact hfirst.trans hnext hboth

theorem within_guarded (limit : Nat) (node : Node) :
    Guarded limit (node.expr.depth ≤ limit) (.ok (nodeOf node.expr)) (node.within limit) := by
  rw [Node.within, node.height_eq, ← eq_nodeOf]
  split
  case isTrue hdeep => exact ⟨fun hfit ↦ absurd hfit (Nat.not_le.mpr hdeep), fun _ ↦ rfl⟩
  case isFalse hfit => exact guarded_refl (Nat.not_lt.mp hfit) _

end

/-! ## Chains -/

/-- The chain has been read up to `c'`, with rounds to spare, if what was read fits. -/
def ChainedTo (limit : Nat) (fits : Prop) (operator? : Lexeme → Option Operator)
    (operand : Reading Node) (c : Cursor) (expr : Expr) (c' : Cursor) : Prop :=
  ∃ rounds, c'.ahead.length < rounds ∧
    Guarded limit fits (Reading.chain limit operator? operand rounds (nodeOf expr) c')
      (Reading.chained limit operator? operand c)

section

variable {limit : Nat} {operator? : Lexeme → Option Operator} {operand : Reading Node}
  {c c' d : Cursor} {left right : Expr} {operator : Operator} {fits fits' all : Prop}

theorem chainedTo_single (h : Guarded limit fits (.ok (nodeOf left, c')) (operand c)) :
    ChainedTo limit fits operator? operand c left c' :=
  ⟨c'.rounds, Nat.lt_succ_self _,
    h.bind (fun hfit ↦ guarded_refl hfit _) (and_self_iff).symm⟩

theorem ChainedTo.more (h : ChainedTo limit fits operator? operand c left d)
    (hmark : operator? d.current.lexeme = some operator)
    (hright : Guarded limit fits' (.ok (nodeOf right, c')) (operand d.advance))
    (hahead : c'.ahead.length < d.ahead.length)
    (hall : all ↔ fits ∧ fits' ∧ (Expr.binary operator left right).depth ≤ limit) :
    ChainedTo limit all operator? operand c (.binary operator left right) c' := by
  obtain ⟨rounds, hrounds, hchain⟩ := h
  obtain ⟨rounds, rfl⟩ := Nat.exists_eq_add_of_lt (Nat.zero_lt_of_lt hrounds)
  refine ⟨0 + rounds, by omega, hchain.trans (fun _ ↦ ?_) hall⟩
  rw [Reading.chain, hmark]
  have hnode := within_guarded limit (Node.binary operator (nodeOf left) (nodeOf right))
  exact hright.bind (fun _ ↦ hnode.bind (fun hfit ↦ guarded_refl hfit _) and_self_iff.symm) Iff.rfl

theorem ChainedTo.stop (h : ChainedTo limit fits operator? operand c left c')
    (hstop : operator? c'.current.lexeme = none) :
    Guarded limit fits (.ok (nodeOf left, c')) (Reading.chained limit operator? operand c) := by
  obtain ⟨rounds, hrounds, hchain⟩ := h
  obtain ⟨rounds, rfl⟩ := Nat.exists_eq_add_of_lt (Nat.zero_lt_of_lt hrounds)
  rw [Reading.chain, hstop] at hchain
  exact hchain

end

/-! ## What ends a phrase -/

/-- The lexeme does not go on with a negation before it. -/
structure EndsNegation (lexeme : Lexeme) : Prop where
  opening : lexeme ≠ .opening
  caret : lexeme ≠ .caret

structure EndsProduct (lexeme : Lexeme) : Prop extends EndsNegation lexeme where
  product : Reading.productOperator? lexeme = none

structure EndsSum (lexeme : Lexeme) : Prop extends EndsProduct lexeme where
  sum : Reading.sumOperator? lexeme = none

theorem endsProduct_sumMark (mark : SumMark) : EndsProduct mark.lexeme := by
  cases mark <;> exact ⟨⟨nofun, nofun⟩, rfl⟩

theorem endsNegation_productMark (mark : ProductMark) : EndsNegation mark.lexeme := by
  cases mark <;> exact ⟨nofun, nofun⟩

theorem endsSum_closing : EndsSum .closing := ⟨⟨⟨nofun, nofun⟩, rfl⟩, rfl⟩

theorem endsSum_comma : EndsSum .comma := ⟨⟨⟨nofun, nofun⟩, rfl⟩, rfl⟩

theorem endsSum_finish : EndsSum .finish := ⟨⟨⟨nofun, nofun⟩, rfl⟩, rfl⟩

/-! ## Phrases -/

theorem Place.SettledInCall.ne_closing {c c' : Cursor} {u : List Lexeme} {next : Lexeme}
    (h : Place.SettledInCall u next) (hpath : c.Path u c') : c.current.lexeme ≠ .closing := by
  obtain ⟨place, hrun, -, hwanted⟩ := h []
  intro hclosing
  cases hpath with
  | refl =>
    cases hrun
    cases hwanted
  | step hne rest =>
    rw [hclosing] at hrun
    cases hrun

theorem Operand.ne_minus (operand : Operand) {c c' : Cursor} (hpath : c.Path operand.lexemes c') :
    c.current.lexeme ≠ .minus := by
  cases operand <;> rw [Operand.lexemes, path_cons_iff] at hpath <;> rw [hpath.1] <;> nofun

theorem Power.ne_minus (power : Power) {c c' : Cursor} (hpath : c.Path power.lexemes c') :
    c.current.lexeme ≠ .minus := by
  cases power with
  | plain base =>
    rw [Power.lexemes] at hpath
    exact base.ne_minus hpath
  | raised base exponent =>
    rw [Power.lexemes, path_append_iff] at hpath
    obtain ⟨d, hbase, -⟩ := hpath
    exact base.ne_minus hbase

theorem Negation.nesting_pos (negation : Negation) : 0 < negation.nesting := by
  cases negation <;> rw [Negation.nesting] <;> exact Nat.succ_pos _

section

variable {limit : Nat}

/-- A phrase fits if the budget covers its nesting and the limit the height of its tree. -/
abbrev Fits (limit budget nesting : Nat) (expr : Expr) : Prop :=
  nesting ≤ budget ∧ expr.depth ≤ limit

mutual

theorem Sum.chainedTo : ∀ (sum : Sum) {budget : Nat} {c c' : Cursor}, c.Path sum.lexemes c' →
    EndsProduct c'.current.lexeme → budget ≤ limit →
    ChainedTo limit (Fits limit budget sum.nesting sum.expr) Reading.sumOperator?
      (Reading.chained limit Reading.productOperator? (Reading.negation limit budget))
      c sum.expr c'
  | .single term, budget, c, c', hpath, hends, hbudget => by
    rw [Sum.lexemes] at hpath
    rw [Sum.nesting, Sum.expr]
    exact chainedTo_single
      ((term.chainedTo hpath hends.toEndsNegation hbudget).stop hends.product)
  | .more left mark right, budget, c, c', hpath, hends, hbudget => by
    rw [Sum.lexemes, path_append_iff] at hpath
    obtain ⟨d, hleft, hright⟩ := hpath
    obtain ⟨hmark, -, hright⟩ := path_cons_iff.mp hright
    have hoperator : Reading.sumOperator? d.current.lexeme = some mark.operator := by
      rw [hmark]
      cases mark <;> rfl
    have hisOperator := sum_leftRecursive.isOperator hoperator
    have hahead := length_ahead_lt hisOperator hright (right.settled hends.opening)
    have hleftEnds : EndsProduct d.current.lexeme := hmark ▸ endsProduct_sumMark mark
    have hrightRead := (right.chainedTo hright hends.toEndsNegation hbudget).stop hends.product
    rw [Sum.expr]
    refine (left.chainedTo hleft hleftEnds hbudget).more hoperator hrightRead hahead ?_
    simp only [Fits, Sum.nesting, Expr.depth]
    omega

theorem Product.chainedTo : ∀ (product : Product) {budget : Nat} {c c' : Cursor},
    c.Path product.lexemes c' → EndsNegation c'.current.lexeme → budget ≤ limit →
    ChainedTo limit (Fits limit budget product.nesting product.expr) Reading.productOperator?
      (Reading.negation limit budget) c product.expr c'
  | .single factor, budget, c, c', hpath, hends, hbudget => by
    rw [Product.lexemes] at hpath
    rw [Product.nesting, Product.expr]
    exact chainedTo_single (factor.read hpath hends hbudget)
  | .more left mark right, budget, c, c', hpath, hends, hbudget => by
    rw [Product.lexemes, path_append_iff] at hpath
    obtain ⟨d, hleft, hright⟩ := hpath
    obtain ⟨hmark, -, hright⟩ := path_cons_iff.mp hright
    have hoperator : Reading.productOperator? d.current.lexeme = some mark.operator := by
      rw [hmark]
      cases mark <;> rfl
    have hisOperator := product_leftRecursive.isOperator hoperator
    have hahead := length_ahead_lt hisOperator hright (right.settled hends.opening)
    have hleftEnds : EndsNegation d.current.lexeme := hmark ▸ endsNegation_productMark mark
    have hrightRead := right.read hright hends hbudget
    rw [Product.expr]
    refine (left.chainedTo hleft hleftEnds hbudget).more hoperator hrightRead hahead ?_
    simp only [Fits, Product.nesting, Expr.depth]
    omega

theorem Negation.read : ∀ (negation : Negation) {budget : Nat} {c c' : Cursor},
    c.Path negation.lexemes c' → EndsNegation c'.current.lexeme → budget ≤ limit →
    Guarded limit (Fits limit budget negation.nesting negation.expr)
      (.ok (nodeOf negation.expr, c')) (Reading.negation limit budget c)
  | negation, 0, _, _, _, _, _ =>
    ⟨fun hfit ↦ absurd hfit.1 (Nat.not_le.mpr negation.nesting_pos), fun _ ↦ rfl⟩
  | .plain power, budget + 1, c, c', hpath, hends, hbudget => by
    rw [Negation.lexemes] at hpath
    rw [Reading.negation, if_neg (power.ne_minus hpath), Negation.nesting, Negation.expr]
    refine (power.read hpath hends hbudget).congr ?_
    simp only [Fits, Nat.add_le_add_iff_right]
  | .minus below, budget + 1, c, c', hpath, hends, hbudget => by
    rw [Negation.lexemes, path_cons_iff] at hpath
    obtain ⟨hminus, -, hpath⟩ := hpath
    have hbelow := below.read hpath hends (Nat.le_of_lt hbudget)
    have hnode := within_guarded limit (nodeOf below.expr).neg
    rw [Reading.negation, if_pos hminus, Negation.nesting, Negation.expr]
    refine hbelow.bind
      (fun _ ↦ hnode.bind (fun hfit ↦ guarded_refl hfit _) and_self_iff.symm) ?_
    simp only [Fits, nodeOf, Node.neg, Expr.depth]
    omega

theorem Power.read : ∀ (power : Power) {budget : Nat} {c c' : Cursor},
    c.Path power.lexemes c' → EndsNegation c'.current.lexeme → budget < limit →
    Guarded limit (Fits limit budget power.inner power.expr)
      (.ok (nodeOf power.expr, c')) (Reading.power limit (Reading.negation limit budget) c)
  | .plain base, budget, c, c', hpath, hends, hbudget => by
    rw [Power.lexemes] at hpath
    rw [Power.inner, Power.expr, Reading.power]
    refine (base.read hpath hends.opening hbudget).bind (fun hfit ↦ ?_) and_self_iff.symm
    dsimp only
    rw [if_neg hends.caret]
    exact guarded_refl hfit _
  | .raised base exponent, budget, c, c', hpath, hends, hbudget => by
    rw [Power.lexemes, path_append_iff] at hpath
    obtain ⟨d, hbase, hexponent⟩ := hpath
    obtain ⟨hmark, -, hexponent⟩ := path_cons_iff.mp hexponent
    have hopening' : d.current.lexeme ≠ .opening := by
      rw [hmark]
      decide
    have hbaseRead := base.read hbase hopening' hbudget
    have hexponentRead := exponent.read hexponent hends (Nat.le_of_lt hbudget)
    have hnode := within_guarded limit (Node.binary .pow (nodeOf base.expr) (nodeOf exponent.expr))
    rw [Power.expr, Reading.power]
    refine hbaseRead.bind (fun _ ↦ ?_) (q := Fits limit budget exponent.nesting exponent.expr ∧
      (Expr.binary .pow base.expr exponent.expr).depth ≤ limit) ?_
    · dsimp only
      rw [if_pos hmark]
      exact hexponentRead.bind
        (fun _ ↦ hnode.bind (fun hfit ↦ guarded_refl hfit _) and_self_iff.symm) Iff.rfl
    · simp only [Fits, Power.inner, Expr.depth]
      omega

theorem Operand.read : ∀ (operand : Operand) {budget : Nat} {c c' : Cursor},
    c.Path operand.lexemes c' → c'.current.lexeme ≠ .opening → budget < limit →
    Guarded limit (Fits limit budget operand.inner operand.expr)
      (.ok (nodeOf operand.expr, c')) (Reading.operand limit (Reading.negation limit budget) c)
  | .number value, budget, c, c', hpath, _, hbudget => by
    rw [Operand.lexemes, path_cons_iff, path_nil_iff] at hpath
    obtain ⟨hlexeme, -, rfl⟩ := hpath
    rw [Operand.inner, Operand.expr, Reading.operand, hlexeme]
    exact guarded_refl ⟨Nat.zero_le _, Nat.succ_le_of_lt (Nat.zero_lt_of_lt hbudget)⟩ _
  | .name text, budget, c, c', hpath, hopening, hbudget => by
    rw [Operand.lexemes, path_cons_iff, path_nil_iff] at hpath
    obtain ⟨hlexeme, -, rfl⟩ := hpath
    rw [Operand.inner, Operand.expr, Reading.operand, hlexeme]
    dsimp only
    rw [if_neg hopening]
    exact guarded_refl ⟨Nat.zero_le _, Nat.succ_le_of_lt (Nat.zero_lt_of_lt hbudget)⟩ _
  | .bareCall function, budget, c, c', hpath, _, hbudget => by
    simp only [Operand.lexemes, path_cons_iff, path_nil_iff] at hpath
    obtain ⟨hname, -, hopen, -, hclosing, -, rfl⟩ := hpath
    have hnode := within_guarded limit (Node.call function [])
    rw [Operand.inner, Operand.expr, Reading.operand, hname]
    dsimp only
    rw [if_pos hopen, Reading.call, if_pos hclosing]
    change Guarded limit _ _ (c.advance.advance.passClosing _ >>= _)
    rw [passClosing_eq_ok hclosing]
    refine hnode.bind (fun hfit ↦ guarded_refl hfit _) ?_
    simp [Fits, Node.call, Expr.depth]
  | .call function arguments, budget, c, c', hpath, _, hbudget => by
    simp only [Operand.lexemes, path_cons_iff, path_append_iff, path_nil_iff] at hpath
    obtain ⟨hname, -, hopen, -, d, harguments, hclosing, -, rfl⟩ := hpath
    have hread := arguments.read harguments hclosing (Nat.lt_succ_self _) (Nat.le_of_lt hbudget)
    have hbare := (arguments.settled (by decide : Lexeme.closing ≠ .opening)).ne_closing harguments
    have hexpr : (Node.call function (arguments.exprs.map nodeOf)).expr =
        .call function arguments.exprs := congrArg (Expr.call function) (map_nodeOf _)
    have hnode := within_guarded limit (Node.call function (arguments.exprs.map nodeOf))
    rw [hexpr] at hnode
    rw [Operand.inner, Operand.expr, Reading.operand, hname]
    dsimp only
    rw [if_pos hopen, Reading.call, if_neg hbare, Cursor.rounds]
    refine hread.bind (fun _ ↦ ?_) (q := (Expr.call function arguments.exprs).depth ≤ limit) ?_
    · dsimp only
      rw [passClosing_eq_ok hclosing]
      exact hnode.bind (fun hfit ↦ guarded_refl hfit _) and_self_iff.symm
    · simp only [Fits, Expr.depth]
      omega
  | .group sum, budget, c, c', hpath, _, hbudget => by
    simp only [Operand.lexemes, path_cons_iff, path_append_iff, path_nil_iff] at hpath
    obtain ⟨hopen, -, d, hsum, hclosing, -, rfl⟩ := hpath
    have hends : EndsSum d.current.lexeme := hclosing ▸ endsSum_closing
    have hread := (sum.chainedTo hsum hends.toEndsProduct (Nat.le_of_lt hbudget)).stop hends.sum
    rw [Operand.inner, Operand.expr, Reading.operand, hopen]
    dsimp only
    rw [Reading.group, Reading.sum]
    refine hread.bind (fun hfit ↦ ?_) and_self_iff.symm
    dsimp only
    rw [passClosing_eq_ok hclosing]
    exact guarded_refl hfit _

theorem Arguments.read : ∀ (arguments : Arguments) {budget rounds : Nat} {c c' : Cursor},
    c.Path arguments.lexemes c' → c'.current.lexeme = .closing → c.ahead.length < rounds →
    budget ≤ limit →
    Guarded limit (arguments.nesting ≤ budget ∧ Expr.depthOfAll arguments.exprs ≤ limit)
      (.ok (arguments.exprs.map nodeOf, c'))
      (Reading.arguments (Reading.sum limit (Reading.negation limit budget)) rounds c)
  | .last sum, budget, rounds, c, c', hpath, hclosing, hrounds, hbudget => by
    obtain ⟨rounds, rfl⟩ := Nat.exists_eq_add_one_of_ne_zero (Nat.ne_zero_of_lt hrounds)
    rw [Arguments.lexemes] at hpath
    have hends : EndsSum c'.current.lexeme := hclosing ▸ endsSum_closing
    have hread := (sum.chainedTo hpath hends.toEndsProduct hbudget).stop hends.sum
    have hcomma : c'.current.lexeme ≠ .comma := hclosing ▸ nofun
    rw [Arguments.nesting, Arguments.exprs, Reading.arguments, Reading.sum]
    refine hread.bind (fun hfit ↦ ?_) (q := True) ?_
    · dsimp only
      rw [if_neg hcomma]
      exact guarded_refl trivial _
    · simp [Fits, Expr.depthOfAll]
  | .more first rest, budget, rounds, c, c', hpath, hclosing, hrounds, hbudget => by
    obtain ⟨rounds, rfl⟩ := Nat.exists_eq_add_one_of_ne_zero (Nat.ne_zero_of_lt hrounds)
    rw [Arguments.lexemes, path_append_iff] at hpath
    obtain ⟨d, hfirst, hrest⟩ := hpath
    obtain ⟨hcomma, -, hrest⟩ := path_cons_iff.mp hrest
    have hends : EndsSum d.current.lexeme := hcomma ▸ endsSum_comma
    have hread := (first.chainedTo hfirst hends.toEndsProduct hbudget).stop hends.sum
    have hahead := length_ahead_comma_lt hfirst (first.settled (by decide)) hcomma
    have hreadRest := rest.read hrest hclosing (by omega : d.advance.ahead.length < rounds) hbudget
    rw [Reading.sum] at hreadRest
    rw [Arguments.nesting, Arguments.exprs, Reading.arguments, Reading.sum]
    refine hread.bind (fun _ ↦ ?_)
      (q := rest.nesting ≤ budget ∧ Expr.depthOfAll rest.exprs ≤ limit) ?_
    · dsimp only
      rw [if_pos hcomma]
      exact hreadRest.bind (fun hfit ↦ guarded_refl hfit _) and_self_iff.symm
    · simp only [Fits, Expr.depthOfAll]
      omega

end

end

end Reckoner.Grammar
