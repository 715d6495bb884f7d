import Reckoner.Proofs.Grammar.Path

/-!
# What Readings Give

Every reading of the parser gives one of three things: a phrase of its kind with the expression it
stands for; blame for the first token that is impossible from where it began; or a refusal because
of the depth, which needs more tokens than the budget.  `Outcome` says so, once for all readings,
and each level of the grammar keeps it if the reading of negations does.

This holds of all token lists, also of those without an end, where the last token is seen for ever:
the number of rounds that a chain is given is never too small.
-/

namespace Reckoner.Grammar

open Cursor Place

/-! ## Outcomes -/

/-- What a reading from `c` may give, begun at one of the places `start`.  A value is `good` for
the lexemes it was read from and the one that follows. -/
inductive Outcome {α : Type} (limit depth : Nat) (good : List Lexeme → α → Lexeme → Prop)
    (start : List Bracket → Place) (c : Cursor) : Except Fault (α × Cursor) → Prop where
  | ok {u : List Lexeme} {value : α} {c' : Cursor} (hpath : c.Path u c')
      (hgood : good u value c'.current.lexeme) : Outcome limit depth good start c (.ok (value, c'))
  | blame {fault : Unexpected} (h : ∀ stack, Blames (start stack) c fault) :
      Outcome limit depth good start c (.error (.grammar fault))
  | deep (h : c.Ends → depth < c.tokens.length) :
      Outcome limit depth good start c (.error (.tooDeep limit))

namespace Outcome

variable {α β : Type} {limit depth depth' : Nat} {good : List Lexeme → α → Lexeme → Prop}
  {good' : List Lexeme → β → Lexeme → Prop} {start start' : List Bracket → Place}
  {c c' : Cursor} {r : Except Fault (α × Cursor)} {u v : List Lexeme}

theorem bind {next : α × Cursor → Except Fault (β × Cursor)}
    (h : Outcome limit depth good start c r)
    (hnext : ∀ {u value c'}, c.Path u c' → good u value c'.current.lexeme →
      Outcome limit depth good' start c (next (value, c'))) :
    Outcome limit depth good' start c (r >>= next) := by
  cases h with
  | ok hpath hgood => exact hnext hpath hgood
  | blame h => exact .blame h
  | deep h => exact .deep h

theorem mono {good' : List Lexeme → α → Lexeme → Prop} (h : Outcome limit depth good start c r)
    (hgood : ∀ u value next, good u value next → good' u value next) :
    Outcome limit depth good' start c r := by
  cases h with
  | ok hpath h => exact .ok hpath (hgood _ _ _ h)
  | blame h => exact .blame h
  | deep h => exact .deep h

/-- A reading that begins further on, where the lexemes up to there lead. -/
theorem after (depth : Nat) (start : List Bracket → Place)
    (h : Outcome limit depth' good start' c' r) (hpath : c.Path v c')
    (hrun : ∀ stack, ∃ stack' place, (start stack).run v = some place ∧
      AgreesAt c'.current.lexeme place (start' stack'))
    (hdepth : depth ≤ depth' + v.length) :
    Outcome limit depth (fun u value next ↦ ∃ w, u = v ++ w ∧ good w value next) start c r := by
  cases h with
  | ok hpath' hgood => exact .ok (hpath.trans hpath') ⟨_, rfl, hgood⟩
  | blame h =>
    refine .blame fun stack ↦ ?_
    obtain ⟨stack', place, hplace, hagree⟩ := hrun stack
    exact ((h stack').congr hagree).after hpath hplace
  | deep h =>
    refine .deep fun hends ↦ ?_
    have hlength := hpath.length_tokens hends
    have hdeep := h (hpath.tokens hends).2.2
    omega

/-- A tree that is not higher than the number of its lexemes is too high for a small limit only. -/
theorem within {node : Node} {next : Node → Except Fault (β × Cursor)} (hpath : c.Path u c')
    (hnode : node.expr.depth ≤ u.length) (hlimit : depth ≤ limit)
    (h : Outcome limit depth good' start c (next node)) :
    Outcome limit depth good' start c (node.within limit >>= next) := by
  unfold Node.within
  split
  case isTrue hheight =>
    refine .deep fun hends ↦ ?_
    have hlength := hpath.length_lt hends
    have heq := node.height_eq
    omega
  case isFalse => exact h

/-- A bracket that has to close here. -/
theorem passClosing {wanted : Wanted} {next : Cursor → Except Fault (β × Cursor)}
    (hpath : c.Path u c')
    (hrun : c'.current.lexeme ≠ .closing → ∀ stack, ∃ place, (start stack).run u = some place ∧
      place.wanted = wanted ∧ place.step c'.current.lexeme = none)
    (h : c'.current.lexeme = .closing → c.Path (u ++ [.closing]) c'.advance →
      Outcome limit depth good' start c (next c'.advance)) :
    Outcome limit depth good' start c (c'.passClosing wanted >>= next) := by
  unfold Cursor.passClosing
  split
  case isTrue hclosing => exact h hclosing (hpath.trans (.one hclosing (by decide)))
  case isFalse hclosing =>
    refine .blame fun stack ↦ ?_
    obtain ⟨place, hplace, hwanted, hstep⟩ := hrun hclosing stack
    have hblame := (blames_here hstep).after hpath hplace
    rw [hwanted] at hblame
    exact hblame

end Outcome

/-! ## Phrases that are read -/

/-- The lexemes are those of a phrase that stands for the expression of the node, and the lexeme
that follows could not have gone on with it. -/
structure Reads {P : Type} (lexemes : P → List Lexeme) (expr : P → Expr) (stops : Lexeme → Prop)
    (u : List Lexeme) (node : Node) (next : Lexeme) : Prop where
  phrase : ∃ phrase, lexemes phrase = u ∧ expr phrase = node.expr
  settled : Settled u next
  stops : stops next

/-- The marks of the operators make left-recursive phrases of one kind out of phrases of
another. -/
structure LeftRecursive {P Q : Type} (operator? : Lexeme → Option Operator)
    (lexemes : P → List Lexeme) (expr : P → Expr) (lexemes' : Q → List Lexeme)
    (expr' : Q → Expr) : Prop where
  single : ∀ q, ∃ p, lexemes p = lexemes' q ∧ expr p = expr' q
  more : ∀ p mark operator q, operator? mark = some operator →
    ∃ p', lexemes p' = lexemes p ++ mark :: lexemes' q ∧
      expr p' = .binary operator (expr p) (expr' q)
  depth_le : ∀ p, (expr p).depth ≤ (lexemes p).length
  isOperator : ∀ {mark operator}, operator? mark = some operator → isOperator mark

theorem sum_leftRecursive : LeftRecursive Reading.sumOperator? Sum.lexemes Sum.expr
    Product.lexemes Product.expr where
  single q := ⟨.single q, by rw [Sum.lexemes], by rw [Sum.expr]⟩
  more p mark operator q h := by
    cases mark <;> cases h
    · exact ⟨.more p .plus q, by rw [Sum.lexemes, SumMark.lexeme],
        by rw [Sum.expr, SumMark.operator]⟩
    · exact ⟨.more p .minus q, by rw [Sum.lexemes, SumMark.lexeme],
        by rw [Sum.expr, SumMark.operator]⟩
  depth_le p := p.bounded.2
  isOperator {mark operator} h := by cases mark <;> cases h <;> rfl

theorem product_leftRecursive : LeftRecursive Reading.productOperator? Product.lexemes
    Product.expr Negation.lexemes Negation.expr where
  single q := ⟨.single q, by rw [Product.lexemes], by rw [Product.expr]⟩
  more p mark operator q h := by
    cases mark <;> cases h
    · exact ⟨.more p .star q, by rw [Product.lexemes, ProductMark.lexeme],
        by rw [Product.expr, ProductMark.operator]⟩
    · exact ⟨.more p .slash q, by rw [Product.lexemes, ProductMark.lexeme],
        by rw [Product.expr, ProductMark.operator]⟩
  depth_le p := p.bounded.2
  isOperator {mark operator} h := by cases mark <;> cases h <;> rfl

/-! ## Chains -/

/-- No phrase is made of one mark between phrases alone. -/
theorem not_settled_replicate {mark : Lexeme} (h : isOperator mark ∨ mark = .comma) (n : Nat)
    (next : Lexeme) : ¬ Settled (List.replicate n mark) next := by
  intro hsettled
  obtain ⟨place, hrun, -, hwanted⟩ := hsettled []
  have hoperand : (Place.operand []).run (List.replicate n mark) = some (.operand []) ∨
      (Place.operand []).run (List.replicate n mark) = none := by
    clear hsettled hrun
    induction n with
    | zero => exact .inl rfl
    | succ n ih =>
      rw [List.replicate_succ, run_cons]
      cases mark <;> first | exact ih | exact .inr rfl | simp [isOperator] at h
  rcases hoperand with hoperand | hoperand
  · rw [hoperand] at hrun
    cases hrun
    cases hwanted
  · rw [hoperand] at hrun
    cases hrun

/-- Where no token is ahead of a mark between phrases, no phrase follows. -/
theorem ahead_ne_nil {c c' : Cursor} {u : List Lexeme} {next : Lexeme} (hpath : c.Path u c')
    (hsettled : Settled u next) (h : isOperator c'.current.lexeme ∨ c'.current.lexeme = .comma) :
    c.ahead ≠ [] := by
  intro hlast
  obtain ⟨hu, hlexeme⟩ := hpath.eq_replicate hlast
  rw [hlexeme] at h
  rw [hu] at hsettled
  exact not_settled_replicate h u.length next hsettled

theorem length_ahead_lt {c c' : Cursor} {u : List Lexeme} {next : Lexeme}
    (hmark : isOperator c.current.lexeme) (hpath : c.advance.Path u c')
    (hsettled : Settled u next) : c'.ahead.length < c.ahead.length := by
  have hne : c.current.lexeme ≠ .finish := by
    intro hfinish
    rw [hfinish] at hmark
    cases hmark
  have hone : c.Path [c.current.lexeme] c.advance := .one rfl hne
  have hadvance := hone.length_ahead
  have hlength := hpath.length_ahead
  rw [List.length_singleton] at hadvance
  have hahead : c.ahead.length ≠ 0 := by
    intro hlast
    have hlast' : c.advance.ahead = [] := List.eq_nil_of_length_eq_zero (by omega)
    have hlexeme := (hpath.eq_replicate hlast').2
    rw [(hone.eq_replicate (List.eq_nil_of_length_eq_zero hlast)).2] at hlexeme
    exact ahead_ne_nil hpath hsettled (.inl (hlexeme ▸ hmark)) hlast'
  omega

theorem length_ahead_comma_lt {c c' : Cursor} {u : List Lexeme} (hpath : c.Path u c')
    (hsettled : Settled u .comma) (hcomma : c'.current.lexeme = .comma) :
    c'.advance.ahead.length < c.ahead.length := by
  have hpos := List.length_pos_iff.mpr (ahead_ne_nil hpath hsettled (.inr hcomma))
  have hlength := (hpath.trans (.one hcomma nofun)).length_ahead
  rw [List.length_append, List.length_singleton] at hlength
  omega

section

variable {P Q : Type} {operator? : Lexeme → Option Operator} {lexemes : P → List Lexeme}
  {expr : P → Expr} {lexemes' : Q → List Lexeme} {expr' : Q → Expr} {stops : Lexeme → Prop}
  {limit depth : Nat} {operand : Reading Node}

theorem chain_outcome (hgrammar : LeftRecursive operator? lexemes expr lexemes' expr')
    (hlimit : depth ≤ limit)
    (hoperand : ∀ c, Outcome limit depth (Reads lexemes' expr' stops) Place.operand c (operand c))
    {start : Cursor} {rounds : Nat} {left : Node} {c : Cursor} {u : List Lexeme}
    (hpath : start.Path u c) (hleft : Reads lexemes expr stops u left c.current.lexeme)
    (hrounds : c.ahead.length < rounds) :
    Outcome limit depth (Reads lexemes expr fun l ↦ stops l ∧ operator? l = none) Place.operand
      start (Reading.chain limit operator? operand rounds left c) := by
  induction rounds generalizing left c u with
  | zero => omega
  | succ rounds ih =>
    rw [Reading.chain]
    cases hmark : operator? c.current.lexeme with
    | none => exact .ok hpath ⟨hleft.phrase, hleft.settled, hleft.stops, hmark⟩
    | some operator =>
      have hisOperator := hgrammar.isOperator hmark
      have hne : c.current.lexeme ≠ .finish := by
        intro hfinish
        rw [hfinish] at hisOperator
        cases hisOperator
      have hpathMark := hpath.trans (.one rfl hne)
      have hright := (hoperand c.advance).after depth Place.operand hpathMark
        (fun stack ↦ ⟨stack, .operand stack, by
          rw [hleft.settled.run_append, run_cons, done_step_operator hisOperator]
          rfl, rfl, rfl⟩) (by omega)
      apply hright.bind
      rintro _ right c' hpath' ⟨v, rfl, hv⟩
      have hahead := length_ahead_lt hisOperator (hpathMark.rest hpath') hv.settled
      obtain ⟨p, rfl, hp⟩ := hleft.phrase
      obtain ⟨q, rfl, hq⟩ := hv.phrase
      obtain ⟨p', hlexemes, hexpr⟩ := hgrammar.more p _ operator q hmark
      have hnode : (Node.binary operator left right).expr = expr p' := by
        rw [hexpr, hp, hq]
        rfl
      rw [List.append_assoc, List.singleton_append] at hpath'
      refine .within hpath' ?_ hlimit (ih hpath' ?_ (by omega))
      · rw [hnode, ← hlexemes]
        exact hgrammar.depth_le p'
      · exact ⟨⟨p', hlexemes, hnode.symm⟩, hleft.settled.binary hisOperator hv.settled, hv.stops⟩

theorem chained_outcome (hgrammar : LeftRecursive operator? lexemes expr lexemes' expr')
    (hlimit : depth ≤ limit)
    (hoperand : ∀ c, Outcome limit depth (Reads lexemes' expr' stops) Place.operand c (operand c))
    (c : Cursor) :
    Outcome limit depth (Reads lexemes expr fun l ↦ stops l ∧ operator? l = none) Place.operand c
      (Reading.chained limit operator? operand c) := by
  unfold Reading.chained
  apply (hoperand c).bind
  intro u first c' hpath hfirst
  obtain ⟨q, rfl, hq⟩ := hfirst.phrase
  obtain ⟨p, hlexemes, hexpr⟩ := hgrammar.single q
  exact chain_outcome hgrammar hlimit hoperand hpath
    ⟨⟨p, hlexemes, hexpr.trans hq⟩, hfirst.settled, hfirst.stops⟩ (Nat.lt_succ_self _)

end

/-! ## Levels of the grammar -/

section

variable {limit depth : Nat} {negation : Reading Node}

theorem isOperator_eq_false {lexeme : Lexeme} (hcaret : lexeme ≠ .caret)
    (hproduct : Reading.productOperator? lexeme = none)
    (hsum : Reading.sumOperator? lexeme = none) : isOperator lexeme = false := by
  cases lexeme <;> simp_all [isOperator, Reading.productOperator?, Reading.sumOperator?]

/-- The reading of negations gives negations, within the depth. -/
def ReadsNegations (limit depth : Nat) (negation : Reading Node) : Prop :=
  ∀ c, Outcome limit depth (Reads Negation.lexemes Negation.expr fun l ↦ l ≠ .caret)
    Place.operand c (negation c)

theorem sum_outcome (hlimit : depth ≤ limit) (h : ReadsNegations limit depth negation)
    (c : Cursor) :
    Outcome limit depth (Reads Sum.lexemes Sum.expr fun l ↦ isOperator l = false) Place.operand c
      (Reading.sum limit negation c) := by
  have hproduct := chained_outcome product_leftRecursive hlimit h
  have hsum := chained_outcome sum_leftRecursive hlimit hproduct c
  refine hsum.mono fun u node next hread ↦ ⟨hread.phrase, hread.settled, ?_⟩
  obtain ⟨⟨hcaret, hproduct⟩, hsum⟩ := hread.stops
  exact isOperator_eq_false hcaret hproduct hsum

/-- Arguments that are read: those of a phrase, with the end of the call or a fault after them. -/
structure ReadsArguments (u : List Lexeme) (nodes : List Node) (next : Lexeme) : Prop where
  phrase : ∃ arguments : Arguments, arguments.lexemes = u ∧
    arguments.exprs = nodes.map Node.expr
  settled : SettledInCall u next
  stops : isOperator next = false ∧ next ≠ .comma

theorem arguments_outcome (hlimit : depth ≤ limit) (h : ReadsNegations limit depth negation)
    {rounds : Nat} {c : Cursor} (hrounds : c.ahead.length < rounds) :
    Outcome limit depth ReadsArguments (fun stack ↦ .operand (.call :: stack)) c
      (Reading.arguments (Reading.sum limit negation) rounds c) := by
  induction rounds generalizing c with
  | zero => omega
  | succ rounds ih =>
    rw [Reading.arguments]
    have hfirst := (sum_outcome hlimit h c).after depth
      (fun stack ↦ .operand (.call :: stack)) (.refl c)
      (fun stack ↦ ⟨.call :: stack, _, rfl, rfl, rfl⟩) (by omega)
    apply hfirst.bind
    rintro _ first c' hpath ⟨u, rfl, hu⟩
    obtain ⟨sum, rfl, hsum⟩ := hu.phrase
    dsimp only
    split
    case isTrue hcomma =>
      have hsettled : Settled sum.lexemes .comma := hcomma ▸ hu.settled
      have hpathComma := hpath.trans (.one hcomma (by decide))
      have hahead := length_ahead_comma_lt hpath hsettled hcomma
      have hrest := (ih (Nat.lt_of_lt_of_le hahead (Nat.le_of_lt_succ hrounds))).after depth
        (fun stack ↦ .operand (.call :: stack)) hpathComma (fun stack ↦ ⟨stack, _, by
          rw [hsettled.run_append]
          rfl, rfl, rfl⟩) (by omega)
      apply hrest.bind
      rintro _ rest d hpath' ⟨v, rfl, hv⟩
      obtain ⟨arguments, rfl, hexprs⟩ := hv.phrase
      rw [List.append_assoc, List.singleton_append] at hpath'
      refine .ok hpath' ⟨⟨.more sum arguments, ?_, ?_⟩, .more hsettled hv.settled, hv.stops⟩
      · rw [Arguments.lexemes]
      · rw [Arguments.exprs, hsum, hexprs, List.map_cons]
    case isFalse hcomma =>
      refine .ok hpath ⟨⟨.last sum, ?_, ?_⟩, hu.settled.inCall, hu.stops, hcomma⟩
      · rw [Arguments.lexemes]
      · rw [Arguments.exprs, hsum, List.map_singleton]

/-- Inside a bracket, nothing but its closing, an operator and, in a call, a comma may follow an
operand. -/
theorem goOn_eq_none {bracket : Bracket} {stack : List Bracket} {lexeme : Lexeme}
    (hoperator : isOperator lexeme = false) (hclosing : lexeme ≠ .closing)
    (hcomma : lexeme = .comma → bracket = .group) : goOn (bracket :: stack) lexeme = none := by
  cases lexeme <;> simp_all [goOn, isOperator]

abbrev ReadsOperand : List Lexeme → Node → Lexeme → Prop :=
  Reads Operand.lexemes Operand.expr fun _ ↦ True

theorem call_outcome (hlimit : depth ≤ limit) (h : ReadsNegations limit depth negation)
    (function : String) (c : Cursor) :
    Outcome limit depth (fun u ↦ ReadsOperand (.name function :: .opening :: u)) Place.argument c
      (Reading.call limit negation function c) := by
  unfold Reading.call
  by_cases hempty : c.current.lexeme = .closing
  · rw [if_pos hempty]
    refine .passClosing (.refl c) (absurd hempty) fun _ hpath ↦ ?_
    have hnode : (Node.call function []).expr = (Operand.bareCall function).expr := by
      rw [Operand.expr]
      rfl
    refine .within hpath ?_ hlimit (.ok hpath ?_)
    · simp [hnode, Operand.expr, Expr.depth, Expr.depthOfAll]
    · have hsettled : Settled [.name function, .opening, .closing] c.advance.current.lexeme :=
        fun stack ↦ ⟨.done stack, rfl, rfl, rfl⟩
      exact ⟨⟨.bareCall function, by rw [Operand.lexemes]; rfl, hnode.symm⟩, hsettled, trivial⟩
  · rw [if_neg hempty]
    have harguments := (arguments_outcome hlimit h (c := c) (Nat.lt_succ_self _)).after depth
      Place.argument (.refl c)
      (fun stack ↦ ⟨stack, _, rfl, argument_agreesAt hempty stack⟩) (by omega)
    apply harguments.bind
    rintro _ nodes c' hpath ⟨u, rfl, hu⟩
    obtain ⟨arguments, rfl, hexprs⟩ := hu.phrase
    obtain ⟨hoperator, hcomma⟩ := hu.stops
    refine .passClosing hpath (fun hclosing stack ↦ ?_) fun hclosing hpath' ↦ ?_
    · obtain ⟨place, hrun, hstep, hwanted⟩ := hu.settled stack
      have hplace : place.wanted ≠ .operand := by
        rw [hwanted]
        simp [wanted, wantedAfter]
      refine ⟨place, argument_run hrun hplace, hwanted, ?_⟩
      rw [hstep]
      exact goOn_eq_none hoperator hclosing fun h ↦ absurd h hcomma
    · have hnode : (Node.call function nodes).expr = (Operand.call function arguments).expr := by
        rw [Operand.expr, hexprs]
        rfl
      refine .within hpath' ?_ hlimit (.ok hpath' ?_)
      · have hbound := arguments.bounded.2
        simp only [hnode, Operand.expr, Expr.depth, List.length_append, List.length_singleton]
        omega
      · have hsettled : SettledInCall arguments.lexemes .closing := hclosing ▸ hu.settled
        exact ⟨⟨.call function arguments, by rw [Operand.lexemes], hnode.symm⟩,
          hsettled.call function _, trivial⟩

theorem group_outcome (hlimit : depth ≤ limit) (h : ReadsNegations limit depth negation)
    (c : Cursor) :
    Outcome limit depth (fun u ↦ ReadsOperand (.opening :: u))
      (fun stack ↦ .operand (.group :: stack)) c (Reading.group limit negation c) := by
  unfold Reading.group
  have hsum := (sum_outcome hlimit h c).after depth
    (fun stack ↦ .operand (.group :: stack)) (.refl c)
    (fun stack ↦ ⟨.group :: stack, _, rfl, rfl, rfl⟩) (by omega)
  apply hsum.bind
  rintro _ node c' hpath ⟨u, rfl, hu⟩
  obtain ⟨sum, rfl, hexpr⟩ := hu.phrase
  refine .passClosing hpath (fun hclosing stack ↦ ?_) fun hclosing hpath' ↦ .ok hpath' ?_
  · obtain ⟨place, hrun, hstep, hwanted⟩ := hu.settled (.group :: stack)
    refine ⟨place, hrun, hwanted, ?_⟩
    rw [hstep]
    exact goOn_eq_none hu.stops hclosing fun _ ↦ rfl
  · have hsettled : Settled sum.lexemes .closing := hclosing ▸ hu.settled
    exact ⟨⟨.group sum, by rw [Operand.lexemes], by rw [Operand.expr, hexpr]⟩,
      hsettled.group _, trivial⟩

theorem beginOperand_eq_none {lexeme : Lexeme} {stack : List Bracket}
    (hnumber : ∀ value, lexeme = .number value → False)
    (hname : ∀ text, lexeme = .name text → False) (hminus : lexeme ≠ .minus)
    (hopening : lexeme = .opening → False) : beginOperand stack lexeme = none := by
  cases lexeme with
  | number value => exact (hnumber value rfl).elim
  | name text => exact (hname text rfl).elim
  | minus => exact absurd rfl hminus
  | opening => exact (hopening rfl).elim
  | _ => rfl

theorem operand_outcome (hlimit : depth < limit) (h : ReadsNegations limit depth negation)
    {c : Cursor} (hminus : c.current.lexeme ≠ .minus) :
    Outcome limit (depth + 1) ReadsOperand Place.operand c (Reading.operand limit negation c) := by
  unfold Reading.operand
  split
  case h_1 value hlexeme =>
    refine .ok (.one hlexeme nofun) ⟨⟨.number value, ?_, ?_⟩, fun stack ↦ ?_, trivial⟩
    · rw [Operand.lexemes]
    · rw [Operand.expr]
      rfl
    · exact ⟨.done stack, rfl, rfl, rfl⟩
  case h_2 text hlexeme =>
    have hname : c.Path [.name text] c.advance := .one hlexeme nofun
    dsimp only
    split
    case isTrue hopening =>
      have hpath := hname.trans (.one hopening nofun)
      refine ((call_outcome (Nat.le_of_lt hlimit) h text c.advance.advance).after _ _ hpath
        (fun stack ↦ ⟨stack, _, rfl, rfl, rfl⟩) (by simp)).mono ?_
      rintro _ node next ⟨u, rfl, hu⟩
      exact hu
    case isFalse hopening =>
      refine .ok hname ⟨⟨.name text, ?_, ?_⟩, fun stack ↦ ?_, trivial⟩
      · rw [Operand.lexemes]
      · rw [Operand.expr]
        rfl
      · exact ⟨.name stack, rfl, name_agreesAt hopening stack⟩
  case h_3 hopening =>
    refine ((group_outcome (Nat.le_of_lt hlimit) h c.advance).after _ _
      (.one hopening nofun) (fun stack ↦ ⟨stack, _, rfl, rfl, rfl⟩) (by simp)).mono ?_
    rintro _ node next ⟨u, rfl, hu⟩
    exact hu
  case h_4 hnumber hname hopening =>
    refine .blame fun stack ↦ blames_here ?_
    exact beginOperand_eq_none hnumber hname hminus hopening

theorem power_outcome (hlimit : depth < limit) (h : ReadsNegations limit depth negation)
    {c : Cursor} (hminus : c.current.lexeme ≠ .minus) :
    Outcome limit (depth + 1) (Reads Power.lexemes Power.expr fun l ↦ l ≠ .caret) Place.operand c
      (Reading.power limit negation c) := by
  unfold Reading.power
  apply (operand_outcome hlimit h hminus).bind
  intro u base c' hpath hbase
  obtain ⟨operand, rfl, hoperand⟩ := hbase.phrase
  dsimp only
  split
  case isTrue hcaret =>
    have hsettled : Settled operand.lexemes .caret := hcaret ▸ hbase.settled
    have hexponent := (h c'.advance).after (depth + 1) Place.operand
      (hpath.trans (.one hcaret nofun)) (fun stack ↦ ⟨stack, _, by
        rw [hsettled.run_append]
        rfl, rfl, rfl⟩) (by simp)
    apply hexponent.bind
    rintro _ exponent d hpath' ⟨v, rfl, hv⟩
    obtain ⟨negation, rfl, hnegation⟩ := hv.phrase
    have hnode : (Node.binary .pow base exponent).expr = (Power.raised operand negation).expr := by
      rw [Power.expr, hoperand, hnegation]
      rfl
    have hlexemes : operand.lexemes ++ [.caret] ++ negation.lexemes =
        (Power.raised operand negation).lexemes := by
      rw [Power.lexemes, List.append_assoc, List.singleton_append]
    rw [hlexemes] at hpath'
    refine .within hpath' ?_ hlimit (.ok hpath' ⟨⟨_, rfl, hnode.symm⟩, ?_, hv.stops⟩)
    · rw [hnode]
      exact (Power.raised operand negation).bounded.2
    · rw [Power.lexemes]
      exact hsettled.binary rfl hv.settled
  case isFalse hcaret =>
    exact .ok hpath ⟨⟨.plain operand, by rw [Power.lexemes], by rw [Power.expr, hoperand]⟩,
      hbase.settled, hcaret⟩

end

/-! ## The recursion -/

theorem negation_outcome {limit budget : Nat} (hbudget : budget ≤ limit) :
    ReadsNegations limit budget (Reading.negation limit budget) := by
  induction budget with
  | zero =>
    intro c
    rw [Reading.negation]
    refine .deep fun _ ↦ ?_
    rw [Cursor.tokens, List.length_cons]
    omega
  | succ budget ih =>
    intro c
    have hbelow := ih (Nat.le_of_lt hbudget)
    rw [Reading.negation]
    split
    case isTrue hminus =>
      have hstep : c.Path [.minus] c.advance := .one hminus (by simp)
      have hoperand := (hbelow c.advance).after (budget + 1) Place.operand hstep
        (fun stack ↦ ⟨stack, _, rfl, rfl, rfl⟩) (by simp)
      apply hoperand.bind
      rintro _ node c' hpath ⟨u, rfl, hu⟩
      obtain ⟨operand, rfl, hexpr⟩ := hu.phrase
      have hnode : node.neg.expr = (Negation.minus operand).expr := by
        rw [Negation.expr, hexpr]
        rfl
      have hlexemes : [.minus] ++ operand.lexemes = (Negation.minus operand).lexemes := by
        rw [Negation.lexemes, List.singleton_append]
      rw [hlexemes] at hpath
      refine .within hpath ?_ hbudget (.ok hpath ⟨⟨_, rfl, hnode.symm⟩, ?_, hu.stops⟩)
      · rw [hnode]
        exact (Negation.minus operand).bounded.2
      · rw [Negation.lexemes]
        exact hu.settled.minus
    case isFalse hminus =>
      refine (power_outcome hbudget hbelow hminus).mono fun u node next hread ↦ ?_
      obtain ⟨power, hlexemes, hexpr⟩ := hread.phrase
      exact ⟨⟨.plain power, by rw [Negation.lexemes, hlexemes], by rw [Negation.expr, hexpr]⟩,
        hread.settled, hread.stops⟩

end Reckoner.Grammar
