import Reckoner.Proofs.Grammar.Following
import Reckoner.Proofs.ResultText
import Reckoner.Proofs.Safety.Arguments
import Reckoner.Proofs.Safety.Scanner
import Reckoner.Web.Service

/-!
# Calculations that Never Break Off

A whole calculation with all its steps checked, from a line of text to the text of its result, and
the reply of a service that reports a breach as a fault of its own.  Where numbers go up to the
length of the line and one more, nothing is ever breached: the calculation gives its outcome, and
the service is never at fault.
-/

namespace Reckoner

open Grammar

namespace Checked

/-! ## Heights -/

section

variable (largest : Nat)

mutual

def depth : Expr → Checked Nat
  | .number _ => .ok 1
  | .name _ => .ok 1
  | .call _ arguments => do
    let below ← depthOfAll arguments
    add largest 1 below
  | .neg operand => do
    let below ← depth operand
    add largest 1 below
  | .binary _ left right => do
    let below ← depth left
    let below' ← depth right
    add largest 1 (max below below')

def depthOfAll : List Expr → Checked Nat
  | [] => .ok 0
  | first :: rest => do
    let height ← depth first
    let heights ← depthOfAll rest
    .ok (max height heights)

end

variable {largest}

mutual

theorem depth_eq : ∀ {e : Expr}, e.depth ≤ largest → depth largest e = .ok e.depth
  | .number _, _ => by rw [depth, Expr.depth]
  | .name _, _ => by rw [depth, Expr.depth]
  | .neg operand, h => by
    rw [Expr.depth] at h
    rw [depth, depth_eq (by omega), ok_bind, add_eq_ok h, Expr.depth]
  | .binary _ left right, h => by
    rw [Expr.depth] at h
    rw [depth, depth_eq (by omega), ok_bind, depth_eq (by omega), ok_bind, add_eq_ok h, Expr.depth]
  | .call _ arguments, h => by
    rw [Expr.depth] at h
    rw [depth, depthOfAll_eq (by omega), ok_bind, add_eq_ok h, Expr.depth]

theorem depthOfAll_eq : ∀ {es : List Expr}, Expr.depthOfAll es ≤ largest →
    depthOfAll largest es = .ok (Expr.depthOfAll es)
  | [], _ => by rw [depthOfAll, Expr.depthOfAll]
  | first :: rest, h => by
    rw [Expr.depthOfAll] at h
    rw [depthOfAll, depth_eq (by omega), ok_bind, depthOfAll_eq (by omega), ok_bind,
      Expr.depthOfAll]

end

end

/-! ## Expressions -/

def expression (largest patience : Nat) (tokens : List Token) (limit : Nat) :
    Checked (Except Fault Expr) := do
  let (outcome, _) ← Watched.ofTokens (add largest) patience tokens limit
  .ok outcome

/-- Tokens with an end among them never make the parser break off, and it reads the expression that
they write.  No number that it counts with is greater than the number of the tokens. -/
theorem expression_eq {largest patience : Nat} {tokens : List Token}
    (hfinish : .finish ∈ tokens.map Token.lexeme) (hlargest : tokens.length ≤ largest)
    (hpatience : tokens.length ≤ patience) (limit : Nat) :
    expression largest patience tokens limit = .ok (Expr.ofTokens tokens limit) := by
  have hadd : Watched.AddsUpTo (add largest) tokens :=
    fun _ _ hle ↦ add_eq_ok (Nat.le_trans (hle hfinish) hlargest)
  have hrounds : Watched.Suffices tokens limit 0 patience :=
    .inr ⟨hfinish, by rwa [Nat.zero_add]⟩
  obtain ⟨events, hrun, -⟩ := Watched.ofTokens_eq hadd rfl hpatience hrounds
  rw [expression, hrun, ok_bind]

/-! ## Values -/

/-- What an evaluation gives, if every function finds the arguments that it looks for. -/
def found (outcome : Evaluation) : Checked Evaluation :=
  match outcome with
  | .error .missingArgument => .error .outOfRange
  | outcome => .ok outcome

/-- The size of an exponent, which has a sign and 31 binary digits. -/
def exponentSize (exponent : Int) : Checked Nat :=
  if exponent.natAbs < twoPow 31 then .ok exponent.natAbs else .error .overflow

def resultText (value : Binary64) : Checked (Except EvalFault String) :=
  match value with
  | .finite _ m =>
    if m.units = 0 then .ok value.resultText
    else do
      let _ ← exponentSize (Numeral.shortest m).leadingExponent
      .ok value.resultText
  | _ => .ok value.resultText

theorem found_eq {outcome : Evaluation} (h : outcome ≠ .error .missingArgument) :
    found outcome = .ok outcome := by
  unfold found
  split
  · exact absurd rfl h
  · rfl

theorem resultText_eq (value : Binary64) : resultText value = .ok value.resultText := by
  unfold resultText
  split
  case h_1 negative m =>
    split
    case isTrue => rfl
    case isFalse hne =>
      have hsize := Numeral.natAbs_shortest_leadingExponent_lt hne
      have hbound : tenPow 3 ≤ twoPow 31 := by decide
      rw [exponentSize, if_pos (Nat.lt_of_lt_of_le hsize hbound), ok_bind]
  case h_2 => rfl

/-! ## Calculations -/

def result (expr : Expr) : Checked (Except Fault Result) := do
  match ← found (expr.evaluate .standard) with
  | .error fault => .ok (.error (.evaluation fault))
  | .ok value =>
    match ← resultText value with
    | .error fault => .ok (.error (.evaluation fault))
    | .ok text => .ok (.ok ⟨value, text⟩)

def calculate (largest patience : Nat) (text : String) (limits : Limits) :
    Checked (Except Fault Result) :=
  if text.length = 0 then .ok (.ok ⟨.zero, "0"⟩)
  else if text.length > limits.maxInputLength then
    .ok (.error (.tooLong text.length limits.maxInputLength))
  else do
    match ← tokens largest patience text with
    | .error fault => .ok (.error (.character fault))
    | .ok tokens =>
      match ← expression largest patience tokens limits.maxDepth with
      | .error fault => .ok (.error fault)
      | .ok expr => do
        let _ ← depth largest expr
        result expr

def calculation (largest patience : Nat) (input : String) (limits : Limits) :
    Checked Calculation := do
  let text := String.ofList (Text.trim input.toList)
  let outcome ← calculate largest patience text limits
  .ok ⟨text, outcome⟩

/-- The reply of a service to which a breach is a fault of its own. -/
def reply (largest patience : Nat) (limits : Limits) (body : Option Json.Value) : Web.Reply :=
  match Web.expressionOf body with
  | none => Web.answerReply Web.Status.badRequest (.failure Web.noExpression)
  | some expression =>
    match calculation largest patience expression limits with
    | .error _ => Web.answerReply Web.Status.internalError (.failure "Internal server error")
    | .ok calculation =>
      Web.answerReply (calculation.faultKind?.elim Web.Status.ok Web.Status.ofKind)
        calculation.answer

theorem result_eq (expr : Expr) : result expr = .ok expr.result := by
  rw [result, found_eq expr.evaluate_ne_missingArgument, ok_bind, Expr.result]
  cases expr.evaluate .standard with
  | error fault => rfl
  | ok value =>
    dsimp only
    rw [resultText_eq, ok_bind, mapError_ok, ok_bind]
    cases value.resultText <;> rfl

section

variable {largest patience : Nat} {text : String} {tokens : List Token}

theorem finish_mem_of_ofText (h : Token.ofText text = .ok tokens) :
    .finish ∈ tokens.map Token.lexeme := by
  rw [(Token.ofText_writes h).1]
  exact List.mem_append_right _ List.mem_cons_self

theorem length_le_of_ofText (h : Token.ofText text = .ok tokens) :
    tokens.length ≤ text.length + 1 := by
  rw [← String.length_toList]
  exact (Token.ofCharsFrom_writes h).2

theorem depth_le_of_ofText {limit : Nat} {expr : Expr} (h : Token.ofText text = .ok tokens)
    (hexpr : Expr.ofTokens tokens limit = .ok expr) : expr.depth ≤ text.length := by
  obtain ⟨sum, hlexemes, rfl⟩ := derives_of_ofTokens (Token.ofText_writes h) hexpr
  have hheight := sum.bounded.2
  have hlength := length_le_of_ofText h
  rw [hlexemes, List.length_map, List.length_dropLast] at hheight
  omega

theorem calculate_eq (limits : Limits) (hlargest : text.length < largest)
    (hpatience : text.length < patience) :
    calculate largest patience text limits = .ok (Reckoner.calculate text limits) := by
  rw [calculate, Reckoner.calculate]
  by_cases hempty : text.length = 0
  · rw [if_pos hempty, if_pos hempty]
  rw [if_neg hempty, if_neg hempty]
  by_cases hlength : text.length > limits.maxInputLength
  · rw [if_pos hlength, if_pos hlength]
  rw [if_neg hlength, if_neg hlength, tokens_eq (Nat.le_of_lt hlargest) hpatience, ok_bind,
    Expr.ofText]
  cases htokens : Token.ofText text with
  | error fault => rfl
  | ok tokens =>
    have hcount := length_le_of_ofText htokens
    rw [mapError_ok, ok_bind]
    dsimp only
    rw [expression_eq (finish_mem_of_ofText htokens) (by omega) (by omega), ok_bind]
    cases hexpr : Expr.ofTokens tokens limits.maxDepth with
    | error fault => rfl
    | ok expr =>
      have hheight := depth_le_of_ofText htokens hexpr
      dsimp only
      rw [depth_eq (by omega), ok_bind, result_eq, ok_bind]
      rfl

variable (limits : Limits) {input : String} (hlargest : input.length < largest)
  (hpatience : input.length < patience)

include hlargest hpatience

theorem calculation_eq :
    calculation largest patience input limits = .ok (Calculation.ofText input limits) := by
  have htrim := Text.length_trim_le input.toList
  rw [String.length_toList, ← String.length_ofList] at htrim
  rw [calculation, calculate_eq limits (by omega) (by omega)]
  rfl

theorem reply_eq {body : Option Json.Value} (hbody : Web.expressionOf body = some input) :
    reply largest patience limits body = Web.calculationReply limits body := by
  rw [reply, Web.calculationReply, hbody]
  dsimp only
  rw [calculation_eq limits hlargest hpatience]

end

end Checked

/-! ## No breach -/

theorem Web.status_ne_internalError (limits : Limits) (body : Option Json.Value) :
    (calculationReply limits body).status ≠ Status.internalError := by
  rw [calculationReply]
  split
  case h_1 => decide
  case h_2 expression _ =>
    have hkind := Calculation.faultKind?_ne_internal expression limits
    dsimp only [answerReply]
    generalize (Calculation.ofText expression limits).faultKind? = fault at hkind
    cases fault with
    | none => decide
    | some kind =>
      cases kind with
      | internal => exact absurd rfl hkind
      | _ => decide

/-- Nothing that must never happen does.  Whatever the line and the limits, with numbers up to one
more than its length, each access of the scanner and of the parser is in range, no sum is too great
and no difference is below zero, and the checked calculation is the calculation.  In the parser no
position, depth or height is greater than the number of tokens.  Every standard function finds its
arguments if its arity accepts their number.  So a service that would report a breach as a fault of
its own never does. -/
theorem calculation_never_breaks_off (input : String) (limits : Limits) {largest patience : Nat}
    (hlargest : input.length < largest) (hpatience : input.length < patience) :
    Checked.calculation largest patience input limits = .ok (Calculation.ofText input limits) ∧
      (∀ tokens, Token.ofText input = .ok tokens →
        Checked.expression tokens.length tokens.length tokens limits.maxDepth =
          .ok (Expr.ofTokens tokens limits.maxDepth)) ∧
      (∀ function ∈ Vocabulary.standardFunctions, ∀ arguments : List Binary64,
        function.arity.accepts arguments.length →
          function.apply arguments ≠ .error .missingArgument) ∧
      ∀ body, Web.expressionOf body = some input →
        Checked.reply largest patience limits body = Web.calculationReply limits body ∧
          (Web.calculationReply limits body).status ≠ 500 := by
  refine ⟨Checked.calculation_eq limits hlargest hpatience, ?_, ?_, ?_⟩
  · intro tokens htokens
    exact Checked.expression_eq (Checked.finish_mem_of_ofText htokens) (Nat.le_refl _)
      (Nat.le_refl _) _
  · intro function hfunction arguments haccepts hmissing
    rcases Vocabulary.standardFunctions_fail hfunction hmissing with hfault | ⟨-, hrefuses⟩
    · exact hfault
    · exact hrefuses haccepts
  · intro body hbody
    exact ⟨Checked.reply_eq limits hlargest hpatience hbody,
      Web.status_ne_internalError limits body⟩

theorem power_never_breaks_off :
    "pow(2, 10)".length < 11 ∧
      Checked.calculation 11 11 "pow(2, 10)" {} = .ok (Calculation.ofText "pow(2, 10)" {}) :=
  ⟨by decide, (calculation_never_breaks_off "pow(2, 10)" {} (by decide) (by decide)).1⟩

end Reckoner
