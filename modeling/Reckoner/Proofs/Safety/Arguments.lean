import Reckoner.Proofs.Names.ClosedVocabulary

/-!
# No Argument Is Missing

A function is applied to as many values as the call has arguments, after its arity has accepted
their number.  So no standard function ever looks for an argument that is not there, and no
calculation fails by a fault of the program itself.
-/

namespace Reckoner

namespace Expr

variable {vocabulary : Vocabulary}

theorem length_evaluateAll {exprs : List Expr} {values : List Binary64}
    (h : evaluateAll vocabulary exprs = .ok values) : values.length = exprs.length := by
  induction exprs generalizing values with
  | nil =>
    cases h
    rfl
  | cons first rest ih =>
    rw [evaluateAll, bind_eq_ok_iff] at h
    simp only [bind_eq_ok_iff] at h
    obtain ⟨x, -, xs, hxs, hvalues⟩ := h
    cases hvalues
    rw [List.length_cons, List.length_cons, ih hxs]

theorem finiteOnly_ne_missingArgument (value : Binary64) :
    value.finiteOnly ≠ .error .missingArgument := by
  rw [Binary64.finiteOnly]
  split <;> rintro ⟨⟩

theorem callee_ne_missingArgument {text : String} {given : Nat} :
    callee vocabulary text given ≠ .error .missingArgument := by
  rw [callee]
  split
  · rintro ⟨⟩
  · split <;> rintro ⟨⟩

mutual

theorem evaluate_ne_missingArgument : ∀ e : Expr,
    e.evaluate .standard ≠ .error .missingArgument
  | number value => by
    rw [evaluate]
    exact finiteOnly_ne_missingArgument value
  | name text => by
    rw [evaluate]
    split
    · exact finiteOnly_ne_missingArgument _
    · exact nofun
  | neg operand => by
    intro h
    rw [evaluate, bind_eq_error_iff] at h
    rcases h with h | ⟨x, -, h⟩
    · exact operand.evaluate_ne_missingArgument h
    · exact finiteOnly_ne_missingArgument _ h
  | binary operator left right => by
    intro h
    rw [evaluate, bind_eq_error_iff] at h
    simp only [bind_eq_error_iff] at h
    rcases h with h | ⟨x, -, h | ⟨y, -, h | ⟨value, -, h⟩⟩⟩
    · exact left.evaluate_ne_missingArgument h
    · exact right.evaluate_ne_missingArgument h
    · exact False.elim (Operator.apply_fault h)
    · exact finiteOnly_ne_missingArgument _ h
  | call text arguments => by
    intro h
    rw [evaluate, bind_eq_error_iff] at h
    simp only [bind_eq_error_iff] at h
    rcases h with h | ⟨function, hcallee, h | ⟨values, hvalues, h | ⟨value, -, h⟩⟩⟩
    · exact callee_ne_missingArgument h
    · exact evaluateAll_ne_missingArgument arguments h
    · obtain ⟨hfunction, haccepts⟩ := callee_eq_ok hcallee
      have hmem := (Vocabulary.standardFunctions_of_function? hfunction).1
      rw [← length_evaluateAll hvalues] at haccepts
      rcases Vocabulary.standardFunctions_fail hmem h with hfault | ⟨-, hrefuses⟩
      · exact hfault
      · exact hrefuses haccepts
    · exact finiteOnly_ne_missingArgument _ h

theorem evaluateAll_ne_missingArgument : ∀ exprs : List Expr,
    evaluateAll .standard exprs ≠ .error .missingArgument
  | [] => nofun
  | first :: rest => by
    intro h
    rw [evaluateAll, bind_eq_error_iff] at h
    simp only [bind_eq_error_iff] at h
    rcases h with h | ⟨value, -, h | ⟨values, -, h⟩⟩
    · exact first.evaluate_ne_missingArgument h
    · exact evaluateAll_ne_missingArgument rest h
    · cases h

end

end Expr

theorem Calculation.outcome_ne_missingArgument (input : String) (limits : Limits) :
    (Calculation.ofText input limits).outcome ≠ .error (.evaluation .missingArgument) := by
  rw [Calculation.ofText_outcome]
  intro h
  obtain ⟨expr, -, hevaluate | hfault⟩ := calculate_eq_evaluation_fault h
  · exact expr.evaluate_ne_missingArgument hevaluate
  · cases hfault

theorem Fault.kind_eq_internal_iff {fault : Fault} :
    fault.kind = .internal ↔ fault = .evaluation .missingArgument := by
  unfold Fault.kind
  split <;> simp_all

theorem Calculation.faultKind?_ne_internal (input : String) (limits : Limits) :
    (Calculation.ofText input limits).faultKind? ≠ some .internal := by
  rw [Calculation.faultKind?]
  cases houtcome : (Calculation.ofText input limits).outcome with
  | ok result => exact nofun
  | error fault =>
    intro h
    rw [Option.some.injEq, Fault.kind_eq_internal_iff] at h
    subst h
    exact Calculation.outcome_ne_missingArgument input limits houtcome

theorem Fault.kind_eq_forbidden_iff {fault : Fault} :
    fault.kind = .forbidden ↔ ∃ name, fault = .evaluation (.unknownName name) := by
  unfold Fault.kind
  split <;> simp_all

end Reckoner
