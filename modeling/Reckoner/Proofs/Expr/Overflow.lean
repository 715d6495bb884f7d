import Reckoner.Proofs.Expr.Checks

/-!
# Overflow

In an expression whose numbers are numbers, nothing is ever worked out to not-a-number, since every
operand is finite when an operation sees it and the guards keep out what has no value.  So a value
that is not finite is an infinity, and the first check that refuses one is at a number that is
infinite as it stands, at an operation or at a call of the power function.
-/

namespace Reckoner

open Binary64

namespace Expr

/-! ## Nodes and their values -/

/-- The second tree stands somewhere in the first. -/
def HasNode (e node : Expr) : Prop := ∃ context : Context, e = context.fill node

theorem hasNode_refl (e : Expr) : e.HasNode e := ⟨.hole, rfl⟩

theorem HasNode.trans {e e' e'' : Expr} (h : e.HasNode e') (h' : e'.HasNode e'') :
    e.HasNode e'' := by
  obtain ⟨context, rfl⟩ := h
  obtain ⟨context', rfl⟩ := h'
  exact ⟨context.comp context', (context.fill_comp context' e'').symm⟩

theorem hasNode_number_iff {x : Binary64} {node : Expr} :
    (number x).HasNode node ↔ node = .number x := by
  constructor
  · rintro ⟨context, h⟩
    cases context <;> cases h
    rfl
  · rintro rfl
    exact hasNode_refl _

/-- A number stands in an operation if it stands in one of the operands. -/
theorem hasNode_binary_iff {operator : Operator} {left right : Expr} {x : Binary64} :
    (binary operator left right).HasNode (.number x) ↔
      left.HasNode (.number x) ∨ right.HasNode (.number x) := by
  constructor
  · rintro ⟨context, h⟩
    cases context <;> cases h
    · exact .inl ⟨_, rfl⟩
    · exact .inr ⟨_, rfl⟩
  · rintro (h | h)
    · exact HasNode.trans ⟨.left operator .hole right, rfl⟩ h
    · exact HasNode.trans ⟨.right operator left .hole, rfl⟩ h

/-- The value of an expression before it is checked itself, all in it having been checked. -/
def computed (vocabulary : Vocabulary) : Expr → Evaluation
  | number value => .ok value
  | name text => (vocabulary.constant? text).elim (.error (.unknownName text)) .ok
  | neg operand => do
    let value ← operand.evaluate vocabulary
    .ok value.neg
  | binary operator left right => do
    let x ← left.evaluate vocabulary
    let y ← right.evaluate vocabulary
    operator.apply x y
  | call text arguments => do
    let function ← callee vocabulary text arguments.length
    let values ← evaluateAll vocabulary arguments
    function.apply values

variable {vocabulary : Vocabulary} {e : Expr} {value : Binary64}

theorem evaluate_eq_computed (e : Expr) :
    e.evaluate vocabulary = e.computed vocabulary >>= finiteOnly := by
  cases e with
  | number value =>
    rw [evaluate]
    rfl
  | name text =>
    rw [evaluate, computed]
    cases vocabulary.constant? text <;> rfl
  | neg operand =>
    rw [evaluate, computed]
    cases operand.evaluate vocabulary <;> rfl
  | binary operator left right =>
    rw [evaluate, computed]
    cases left.evaluate vocabulary <;> cases right.evaluate vocabulary <;> rfl
  | call text arguments =>
    rw [evaluate, computed]
    cases callee vocabulary text arguments.length <;>
      cases evaluateAll vocabulary arguments <;> rfl

theorem finiteOnly_eq_ok {x : Binary64} (h : x.finiteOnly = .ok value) :
    x = value ∧ x.isFinite := by
  rw [finiteOnly] at h
  split at h
  case isTrue hfinite =>
    cases h
    exact ⟨rfl, hfinite⟩
  case isFalse => cases h

theorem evaluate_isFinite (h : e.evaluate vocabulary = .ok value) : value.isFinite := by
  rw [evaluate_eq_computed, bind_eq_ok_iff] at h
  obtain ⟨x, -, hx⟩ := h
  obtain ⟨rfl, hfinite⟩ := finiteOnly_eq_ok hx
  exact hfinite

theorem evaluateAll_isFinite {exprs : List Expr} {values : List Binary64}
    (h : evaluateAll vocabulary exprs = .ok values) : ∀ x ∈ values, x.isFinite := by
  induction exprs generalizing values with
  | nil =>
    cases h
    simp
  | cons first rest ih =>
    rw [evaluateAll, bind_eq_ok_iff] at h
    simp only [bind_eq_ok_iff] at h
    obtain ⟨x, hx, xs, hxs, hvalues⟩ := h
    cases hvalues
    intro y hy
    rcases List.mem_cons.mp hy with rfl | hy
    · exact evaluate_isFinite hx
    · exact ih hxs y hy

/-! ## No value is not-a-number -/

/-- A name that stands for a constant stands for a finite one. -/
theorem standard_constant_isFinite {text : String}
    (h : Vocabulary.standard.constant? text = some value) : value.isFinite := by
  have hnames : ∀ text ∈ constantNames,
      ((Vocabulary.standard.constant? text).elim true isFinite) = true := by decide +kernel
  have hname : text ∈ constantNames := by
    rw [← Vocabulary.isSome_constant?_iff, h]
    rfl
  have hfinite := hnames text hname
  rw [h] at hfinite
  exact hfinite

/-- The function is the power function, or its value is finite. -/
theorem apply_cases {text : String} {function : Function} {values : List Binary64}
    (hfunction : Vocabulary.standard.function? text = some function)
    (hvalues : ∀ x ∈ values, x.isFinite) (h : function.apply values = .ok value) :
    value.isFinite ∨ text = "pow" ∧ value ≠ .nan := by
  obtain ⟨hmem, hname⟩ := Vocabulary.standardFunctions_of_function? hfunction
  by_cases hpow : text = "pow"
  · subst hpow
    rw [Vocabulary.standard_pow] at hfunction
    cases hfunction
    obtain ⟨x, hx, hrest⟩ := bind_eq_ok_iff.mp h
    obtain ⟨y, hy, hpower⟩ := bind_eq_ok_iff.mp hrest
    refine .inr ⟨rfl, ?_⟩
    rintro rfl
    exact power_ne_nan (hvalues x (Function.mem_of_argument hx))
      (hvalues y (Function.mem_of_argument hy)) hpower
  · exact .inl (Vocabulary.standardFunctions_keepFinite hmem (hname ▸ hpow) hvalues h)

/-- A tree whose value may be infinite, all in it being finite: a number, an operation or a call of
the power function. -/
def MayOverflow : Expr → Prop
  | number _ => True
  | binary .. => True
  | call function _ => function = "pow"
  | _ => False

/-- What is worked out is finite, or overflows where that may happen. -/
theorem computed_cases (hnumber : e ≠ .number .nan) (h : e.computed .standard = .ok value) :
    value.isFinite ∨ e.MayOverflow ∧ value ≠ .nan := by
  cases e with
  | number x =>
    cases h
    exact .inr ⟨trivial, fun hnan ↦ hnumber (congrArg number hnan)⟩
  | name text =>
    rw [computed] at h
    cases hconstant : Vocabulary.standard.constant? text with
    | none =>
      rw [hconstant] at h
      cases h
    | some x =>
      rw [hconstant] at h
      cases h
      exact .inl (standard_constant_isFinite hconstant)
  | neg operand =>
    obtain ⟨x, hx, hneg⟩ := bind_eq_ok_iff.mp h
    cases hneg
    exact .inl (neg_isFinite (evaluate_isFinite hx))
  | binary operator left right =>
    obtain ⟨x, hx, hrest⟩ := bind_eq_ok_iff.mp h
    obtain ⟨y, hy, happly⟩ := bind_eq_ok_iff.mp hrest
    refine .inr ⟨trivial, ?_⟩
    rintro rfl
    exact operator.apply_ne_nan (evaluate_isFinite hx) (evaluate_isFinite hy) happly
  | call text arguments =>
    obtain ⟨function, hcallee, hrest⟩ := bind_eq_ok_iff.mp h
    obtain ⟨values, hvalues, happly⟩ := bind_eq_ok_iff.mp hrest
    exact apply_cases (callee_eq_ok hcallee).1 (evaluateAll_isFinite hvalues) happly

/-! ## The first value that is not finite -/

theorem callee_ne_nonFinite {text : String} {given : Nat} :
    callee vocabulary text given ≠ .error .nonFinite := by
  rw [callee]
  split
  · rintro ⟨⟩
  · split <;> rintro ⟨⟩

theorem apply_ne_nonFinite {text : String} {function : Function} {values : List Binary64}
    (h : Vocabulary.standard.function? text = some function) :
    function.apply values ≠ .error .nonFinite := by
  intro happly
  rcases Vocabulary.standardFunctions_fail (Vocabulary.standardFunctions_of_function? h).1 happly
    with hfault | ⟨hfault, -⟩
  · exact hfault
  · cases hfault

/-- The first value that is not finite in the order of the checks is an infinity at this node. -/
def OverflowsAt (context : Context) (node : Expr) : Prop :=
  (∀ check ∈ context.checksBefore, check.Passes .standard) ∧
    ∃ negative, node.computed .standard = .ok (.infinite negative) ∧ node.MayOverflow

theorem overflowsAt_hole (hnumber : e ≠ .number .nan) (h : e.computed .standard = .ok value)
    (hfinite : value.finiteOnly = .error .nonFinite) : OverflowsAt .hole e := by
  refine ⟨by simp [Context.checksBefore], ?_⟩
  rcases computed_cases hnumber h with hvalue | ⟨hmay, hnan⟩
  · rw [finiteOnly, if_pos hvalue] at hfinite
    cases hfinite
  · cases value with
    | nan => exact absurd rfl hnan
    | infinite negative => exact ⟨negative, h, hmay⟩
    | finite n m => cases hfinite

theorem passes_of_evaluate (h : e.evaluate vocabulary = .ok value) :
    ∀ check ∈ e.checks, check.Passes vocabulary :=
  (evaluate_eq_ok_iff.mp h).1

theorem passes_of_callee {text : String} {given : Nat} {function : Function}
    (h : callee vocabulary text given = .ok function) :
    (Check.function text).Passes vocabulary ∧ (Check.arity text given).Passes vocabulary := by
  obtain ⟨hfunction, haccepts⟩ := callee_eq_ok h
  simp [Check.Passes, Check.fault?, hfunction, haccepts]

mutual

theorem exists_overflow : ∀ e : Expr, ¬ e.HasNode (.number .nan) →
    e.evaluate .standard = .error .nonFinite →
      ∃ context node, e = context.fill node ∧ OverflowsAt context node
  | number value, hnumber, h => by
    have hne : number value ≠ .number .nan := fun heq ↦ hnumber (heq ▸ hasNode_refl _)
    rw [evaluate] at h
    exact ⟨.hole, _, rfl, overflowsAt_hole hne rfl h⟩
  | name text, hnumber, h => by
    rw [evaluate_eq_computed, bind_eq_error_iff] at h
    rcases h with h | ⟨value, hvalue, h⟩
    · rw [computed] at h
      cases hconstant : Vocabulary.standard.constant? text <;> rw [hconstant] at h <;> cases h
    · exact ⟨.hole, _, rfl, overflowsAt_hole nofun hvalue h⟩
  | neg operand, hnumber, h => by
    rw [evaluate_eq_computed, bind_eq_error_iff] at h
    rcases h with h | ⟨value, hvalue, h⟩
    · rcases bind_eq_error_iff.mp h with h | ⟨x, -, h⟩
      · have hoperand : ¬ operand.HasNode (.number .nan) :=
          fun hnode ↦ hnumber (HasNode.trans ⟨.neg .hole, rfl⟩ hnode)
        obtain ⟨context, node, rfl, hbefore, hnode⟩ := exists_overflow operand hoperand h
        exact ⟨.neg context, node, rfl, hbefore, hnode⟩
      · cases h
    · exact ⟨.hole, _, rfl, overflowsAt_hole nofun hvalue h⟩
  | binary operator left right, hnumber, h => by
    rw [evaluate_eq_computed, bind_eq_error_iff] at h
    rcases h with h | ⟨value, hvalue, h⟩
    · rcases bind_eq_error_iff.mp h with h | ⟨x, hx, h⟩
      · have hleft : ¬ left.HasNode (.number .nan) :=
          fun hnode ↦ hnumber (HasNode.trans ⟨.left operator .hole right, rfl⟩ hnode)
        obtain ⟨context, node, rfl, hbefore, hnode⟩ := exists_overflow left hleft h
        exact ⟨.left operator context right, node, rfl, hbefore, hnode⟩
      · rcases bind_eq_error_iff.mp h with h | ⟨y, -, h⟩
        · have hright : ¬ right.HasNode (.number .nan) :=
            fun hnode ↦ hnumber (HasNode.trans ⟨.right operator left .hole, rfl⟩ hnode)
          obtain ⟨context, node, rfl, hbefore, hnode⟩ := exists_overflow right hright h
          refine ⟨.right operator left context, node, rfl, ?_, hnode⟩
          rw [Context.checksBefore, List.forall_mem_append]
          exact ⟨passes_of_evaluate hx, hbefore⟩
        · exact False.elim (Operator.apply_fault h)
    · exact ⟨.hole, _, rfl, overflowsAt_hole nofun hvalue h⟩
  | call text arguments, hnumber, h => by
    rw [evaluate_eq_computed, bind_eq_error_iff] at h
    rcases h with h | ⟨value, hvalue, h⟩
    · rcases bind_eq_error_iff.mp h with h | ⟨function, hcallee, h⟩
      · exact absurd h callee_ne_nonFinite
      · rcases bind_eq_error_iff.mp h with h | ⟨values, -, h⟩
        · have hargument : ∀ argument ∈ arguments, ¬ argument.HasNode (.number .nan) := by
            intro argument hmem hnode
            obtain ⟨before, after, rfl⟩ := List.append_of_mem hmem
            exact hnumber (HasNode.trans ⟨.argument text before .hole after, rfl⟩ hnode)
          obtain ⟨before, context, node, after, rfl, hpasses, hbefore, hnode⟩ :=
            exists_overflow_of_all arguments hargument h
          obtain ⟨hfunction, harity⟩ := passes_of_callee hcallee
          refine ⟨.argument text before context after, node, rfl, ?_, hnode⟩
          rw [length_around] at harity
          rw [Context.checksBefore]
          simp only [List.cons_append, List.forall_mem_cons, List.forall_mem_append]
          exact ⟨hfunction, harity, hpasses, hbefore⟩
        · exact absurd h (apply_ne_nonFinite (callee_eq_ok hcallee).1)
    · exact ⟨.hole, _, rfl, overflowsAt_hole nofun hvalue h⟩

theorem exists_overflow_of_all : ∀ exprs : List Expr,
    (∀ e ∈ exprs, ¬ e.HasNode (.number .nan)) →
    evaluateAll .standard exprs = .error .nonFinite →
      ∃ before context node after, exprs = before ++ Context.fill node context :: after ∧
        (∀ check ∈ checksOfAll before, check.Passes .standard) ∧ OverflowsAt context node
  | [], _, h => by cases h
  | first :: rest, hnumber, h => by
    obtain ⟨hfirst, hrest⟩ := List.forall_mem_cons.mp hnumber
    rw [evaluateAll, bind_eq_error_iff] at h
    rcases h with h | ⟨value, hvalue, h⟩
    · obtain ⟨context, node, rfl, hnode⟩ := exists_overflow first hfirst h
      exact ⟨[], context, node, rest, rfl, by simp [checksOfAll], hnode⟩
    · rcases bind_eq_error_iff.mp h with h | ⟨values, -, h⟩
      · obtain ⟨before, context, node, after, rfl, hpasses, hnode⟩ :=
          exists_overflow_of_all rest hrest h
        refine ⟨first :: before, context, node, after, rfl, ?_, hnode⟩
        rw [checksOfAll, List.forall_mem_append]
        exact ⟨passes_of_evaluate hvalue, hpasses⟩
      · cases h

end

theorem evaluate_eq_nonFinite_of_overflowsAt {context : Context} {node : Expr}
    (h : OverflowsAt context node) :
    (context.fill node).evaluate .standard = .error .nonFinite := by
  obtain ⟨hbefore, negative, hcomputed, -⟩ := h
  have hnode : node.evaluate .standard = .error .nonFinite := by
    rw [evaluate_eq_computed, hcomputed]
    rfl
  obtain ⟨after, hafter⟩ := context.checks_fill node
  rw [evaluate_eq_error_iff] at hnode ⊢
  rw [hafter, List.append_assoc, firstFault?_append, firstFault?_append,
    firstFault?_eq_none_iff.mpr hbefore, hnode]
  rfl

/-- In an expression whose numbers are numbers, no node is ever worked out to not-a-number, and an
evaluation finds a value that is not finite exactly if the first node to fail is a number, an
operation or a power whose value is an infinity. -/
theorem nonFinite_means_overflow (e : Expr) (hnumber : ¬ e.HasNode (.number .nan)) :
    (∀ node, e.HasNode node → node.computed .standard ≠ .ok .nan) ∧
    (e.evaluate .standard = .error .nonFinite ↔
      ∃ context node, e = context.fill node ∧ OverflowsAt context node) := by
  refine ⟨fun node hnode h ↦ ?_, exists_overflow e hnumber, ?_⟩
  · have hne : node ≠ .number .nan := fun heq ↦ hnumber (heq ▸ hnode)
    rcases computed_cases hne h with hfinite | ⟨-, hnan⟩
    · cases hfinite
    · exact hnan rfl
  · rintro ⟨context, node, rfl, hnode⟩
    exact evaluate_eq_nonFinite_of_overflowsAt hnode

/-- `1 - 10^308 * 10`, with the power written as a number. -/
def overflowingProduct : Expr :=
  .binary .sub (.number .one)
    (.binary .mul (.number (.ofDecimal false 1 308)) (.number (.ofDecimal false 1 1)))

theorem overflowingProduct_nonFinite_means_overflow :
    ¬ overflowingProduct.HasNode (.number .nan) ∧
      (∀ node, overflowingProduct.HasNode node → node.computed .standard ≠ .ok .nan) ∧
      ∃ context node, overflowingProduct = context.fill node ∧ OverflowsAt context node := by
  have hnumber : ¬ overflowingProduct.HasNode (.number .nan) := by
    simp only [overflowingProduct, hasNode_binary_iff, hasNode_number_iff, number.injEq]
    decide +kernel
  have hoverflow : overflowingProduct.evaluate .standard = .error .nonFinite := by decide +kernel
  obtain ⟨hvalues, hiff⟩ := nonFinite_means_overflow overflowingProduct hnumber
  exact ⟨hnumber, hvalues, hiff.mp hoverflow⟩

end Expr

end Reckoner
