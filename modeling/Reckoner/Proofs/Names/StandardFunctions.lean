import Reckoner.Expr.Evaluate
import Reckoner.Proofs.Attempt
import Reckoner.Proofs.Binary64.Finite

/-!
# The Standard Functions

What can become of an operation or a standard function.  Given as many arguments as it takes, a
function finds each argument that it looks for, and its only faults are those of arithmetic: a
division by zero or numbers outside its domain.  Finite arguments give finite values, except that
powers may overflow.
-/

namespace Reckoner

/-! ## Faults of arithmetic -/

/-- A fault that an operation may find in its operands. -/
def EvalFault.IsArithmetic : EvalFault → Prop
  | .divisionByZero => True
  | .outsideDomain _ => True
  | _ => False

namespace Binary64

variable {x y : Binary64} {fault : EvalFault}

theorem squareRoot_fault (h : x.squareRoot = .error fault) : fault.IsArithmetic := by
  rw [squareRoot] at h
  split at h <;> cases h
  trivial

theorem logarithm_fault (h : x.logarithm = .error fault) : fault.IsArithmetic := by
  rw [logarithm] at h
  split at h <;> cases h
  trivial

theorem quotient_fault (h : x.quotient y = .error fault) : fault.IsArithmetic := by
  rw [quotient] at h
  split at h <;> cases h
  trivial

theorem power_fault (h : x.power y = .error fault) : fault.IsArithmetic := by
  rw [power] at h
  split at h
  case isTrue =>
    cases h
    trivial
  case isFalse =>
    split at h <;> cases h
    trivial

end Binary64

theorem Operator.apply_fault {operator : Operator} {x y : Binary64} {fault : EvalFault}
    (h : operator.apply x y = .error fault) : fault.IsArithmetic := by
  cases operator with
  | div => exact Binary64.quotient_fault h
  | pow => exact Binary64.power_fault h
  | _ => cases h

/-! ## Arguments -/

namespace Function

variable {name : String} {arguments : List Binary64} {place : Nat} {value : Binary64}
  {fault : EvalFault}

/-- Only an argument that is not there is not found. -/
theorem argument_eq_error (h : argument arguments place = .error fault) :
    fault = .missingArgument ∧ arguments.length ≤ place := by
  unfold argument at h
  split at h
  case h_1 => cases h
  case h_2 hnone =>
    cases h
    exact ⟨rfl, List.getElem?_eq_none_iff.mp hnone⟩

theorem mem_of_argument (h : argument arguments place = .ok value) : value ∈ arguments := by
  unfold argument at h
  split at h
  case h_1 hsome =>
    cases h
    exact List.mem_of_getElem? hsome
  case h_2 => cases h

/-- The function has a fault of its own only, or one of its arguments is not there. -/
def FailsOnlyOutsideDomain (function : Function) : Prop :=
  ∀ {arguments fault}, function.apply arguments = .error fault →
    fault.IsArithmetic ∨
      fault = .missingArgument ∧ ¬ function.arity.accepts arguments.length

theorem not_accepts_of_length_lt {arity : Arity} {given : Nat} (h : given < arity.least) :
    ¬ arity.accepts given := by
  rw [Arity.accepts, Bool.and_eq_true, decide_eq_true_iff]
  omega

theorem unary_fails {f : Binary64 → Evaluation}
    (hf : ∀ {x fault}, f x = .error fault → fault.IsArithmetic) :
    (unary name f).FailsOnlyOutsideDomain := by
  intro arguments fault h
  rcases bind_eq_error_iff.mp h with h | ⟨x, -, h⟩
  · obtain ⟨rfl, hlength⟩ := argument_eq_error h
    exact .inr ⟨rfl, not_accepts_of_length_lt (Nat.lt_succ_of_le hlength)⟩
  · exact .inl (hf h)

theorem binary_fails {f : Binary64 → Binary64 → Evaluation}
    (hf : ∀ {x y fault}, f x y = .error fault → fault.IsArithmetic) :
    (binary name f).FailsOnlyOutsideDomain := by
  intro arguments fault h
  rcases bind_eq_error_iff.mp h with h | ⟨x, -, h⟩
  · obtain ⟨rfl, hlength⟩ := argument_eq_error h
    exact .inr ⟨rfl, not_accepts_of_length_lt (Nat.lt_succ_of_le (Nat.le_succ_of_le hlength))⟩
  · rcases bind_eq_error_iff.mp h with h | ⟨y, -, h⟩
    · obtain ⟨rfl, hlength⟩ := argument_eq_error h
      exact .inr ⟨rfl, not_accepts_of_length_lt (Nat.lt_succ_of_le hlength)⟩
    · exact .inl (hf h)

theorem total_fails {f : Binary64 → Binary64} :
    (unary name fun x ↦ .ok (f x)).FailsOnlyOutsideDomain := by
  apply unary_fails
  intro x fault h
  cases h

theorem optional_fails {f : Binary64 → Binary64} : (optional name f).FailsOnlyOutsideDomain := by
  intro arguments fault h
  cases h

/-- The function takes finite numbers to finite numbers. -/
def KeepsFinite (function : Function) : Prop :=
  ∀ {arguments value}, (∀ x ∈ arguments, x.isFinite) → function.apply arguments = .ok value →
    value.isFinite

theorem unary_keepsFinite {f : Binary64 → Evaluation}
    (hf : ∀ {x value}, x.isFinite → f x = .ok value → value.isFinite) :
    (unary name f).KeepsFinite := by
  intro arguments value harguments h
  obtain ⟨x, hx, hvalue⟩ := bind_eq_ok_iff.mp h
  exact hf (harguments x (mem_of_argument hx)) hvalue

theorem total_keepsFinite {f : Binary64 → Binary64}
    (hf : ∀ {x : Binary64}, x.isFinite → (f x).isFinite) :
    (unary name fun x ↦ .ok (f x)).KeepsFinite := by
  apply unary_keepsFinite
  rintro x value hx ⟨⟩
  exact hf hx

theorem optional_keepsFinite {f : Binary64 → Binary64}
    (hf : ∀ {x : Binary64}, x.isFinite → (f x).isFinite) : (optional name f).KeepsFinite := by
  rintro arguments value harguments ⟨⟩
  cases arguments with
  | nil => rfl
  | cons first rest => exact hf (harguments first List.mem_cons_self)

end Function

/-! ## The functions of the vocabulary -/

namespace Vocabulary

variable {text : String} {function : Function}

theorem standardFunctions_of_function? (h : standard.function? text = some function) :
    function ∈ standardFunctions ∧ function.name = text := by
  unfold function? at h
  split at h
  case h_1 function' hentry =>
    cases h
    unfold entry? at hentry
    rw [List.lookup_eq_some_iff] at hentry
    obtain ⟨before, after, hentries, -⟩ := hentry
    have hmem : (text, Entry.function function) ∈ standard.entries := by
      rw [hentries]
      simp
    simpa [standard] using hmem
  case h_2 => cases h

theorem standardFunctions_fail (h : function ∈ standardFunctions) :
    function.FailsOnlyOutsideDomain := by
  simp only [standardFunctions, List.mem_cons, List.not_mem_nil, or_false] at h
  rcases h with rfl | rfl | rfl | rfl | rfl | rfl | rfl | rfl | rfl | rfl
  · exact Function.total_fails
  · exact Function.total_fails
  · exact Function.total_fails
  · exact Function.unary_fails Binary64.squareRoot_fault
  · exact Function.unary_fails Binary64.logarithm_fault
  · exact Function.total_fails
  · exact Function.total_fails
  · exact Function.binary_fails Binary64.power_fault
  · exact Function.optional_fails
  · exact Function.optional_fails

theorem standardFunctions_keepFinite (h : function ∈ standardFunctions)
    (hname : function.name ≠ "pow") : function.KeepsFinite := by
  simp only [standardFunctions, List.mem_cons, List.not_mem_nil, or_false] at h
  rcases h with rfl | rfl | rfl | rfl | rfl | rfl | rfl | rfl | rfl | rfl
  · exact Function.total_keepsFinite Binary64.sin_isFinite
  · exact Function.total_keepsFinite Binary64.cos_isFinite
  · exact Function.total_keepsFinite Binary64.tan_isFinite
  · exact Function.unary_keepsFinite Binary64.squareRoot_isFinite
  · exact Function.unary_keepsFinite Binary64.logarithm_isFinite
  · exact Function.total_keepsFinite Binary64.abs_isFinite
  · exact Function.total_keepsFinite Binary64.roundTiesToEven_isFinite
  · exact absurd rfl hname
  · exact Function.optional_keepsFinite Binary64.trunc_isFinite
  · exact Function.optional_keepsFinite id

theorem standard_pow : standard.function? "pow" = some (.binary "pow" Binary64.power) := rfl

end Vocabulary

end Reckoner
