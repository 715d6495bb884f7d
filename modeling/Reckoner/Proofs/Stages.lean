import Reckoner.Calculation
import Reckoner.Proofs.Grammar.Parsing
import Reckoner.Proofs.Lexing.Lexemes

/-!
# The Stages of a Calculation

A calculation passes through the tokens of its text, the expression that they write, the value of
the expression and the text of the value.  It succeeds if all stages do, and a fault of evaluation
comes after the first two have succeeded.
-/

namespace Reckoner

open Grammar

variable {expression : String} {limits : Limits} {tokens : List Token} {lexemes : List Lexeme}
  {expr : Expr} {fault : EvalFault}

/-! ## White space -/

/-- Only white space is trimmed away entirely. -/
theorem Text.trim_eq_nil_iff (cs : List Char) :
    Text.trim cs = [] ↔ ∀ c ∈ cs, Text.isBlank c := by
  constructor
  · intro h
    obtain ⟨before, after, hcs, hbefore, hafter⟩ := Text.exists_eq_trim cs
    rw [h, List.append_nil] at hcs
    intro c hc
    rw [hcs, List.mem_append] at hc
    exact hc.elim (hbefore c) (hafter c)
  · intro h
    rw [Text.trim, List.dropWhile_eq_nil_iff.mpr h]
    rfl

theorem Text.length_trim_ne_zero {input : String} (h : ¬ ∀ c ∈ input.toList, Text.isBlank c) :
    (String.ofList (Text.trim input.toList)).length ≠ 0 := by
  rw [String.length_ofList, Ne, List.length_eq_zero_iff, Text.trim_eq_nil_iff]
  exact h

theorem Text.length_trim_le (cs : List Char) : (Text.trim cs).length ≤ cs.length := by
  obtain ⟨before, after, hcs, -, -⟩ := Text.exists_eq_trim cs
  have hlength := congrArg List.length hcs
  simp only [List.length_append] at hlength
  omega

/-! ## The expression of a text -/

theorem Expr.ofText_eq_ok_iff {limit : Nat} :
    Expr.ofText expression limit = .ok expr ↔
      ∃ tokens, Token.ofText expression = .ok tokens ∧ Expr.ofTokens tokens limit = .ok expr := by
  simp only [Expr.ofText, bind_eq_ok_iff, mapError_eq_ok_iff]

theorem Token.ofText_writes (h : Token.ofText expression = .ok tokens) :
    Writes tokens (tokens.dropLast.map Token.lexeme) :=
  (Token.ofCharsFrom_writes h).1

/-- A text is refused before evaluation for other reasons than those of evaluation. -/
theorem Expr.ofText_ne_evaluation {limit : Nat} :
    Expr.ofText expression limit ≠ .error (.evaluation fault) := by
  intro h
  rw [Expr.ofText, bind_eq_error_iff] at h
  simp only [mapError_eq_error_iff, mapError_eq_ok_iff] at h
  rcases h with ⟨bad, -, hbad⟩ | ⟨tokens, htokens, hfault⟩
  · cases hbad
  · have hwrites := Token.ofText_writes htokens
    obtain ⟨first, rest, rfl⟩ := hwrites.exists_cons
    rcases ofTokens_eq_error hwrites hfault with ⟨unexpected, hgrammar, -⟩ | ⟨hdeep, -⟩
    · cases hgrammar
    · cases hdeep

/-! ## Calculations -/

theorem Calculation.ofText_outcome (input : String) (limits : Limits) :
    (Calculation.ofText input limits).outcome =
      calculate (.ofList (Text.trim input.toList)) limits := by
  rw [Calculation.ofText]

/-- The value of an expression and its text. -/
def Expr.result (expr : Expr) : Except Fault Result := do
  let value ← (expr.evaluate .standard).mapError .evaluation
  let text ← value.resultText.mapError .evaluation
  .ok ⟨value, text⟩

theorem Expr.result_eq_ok {value : Binary64} {text : String}
    (hvalue : expr.evaluate .standard = .ok value) (htext : value.resultText = .ok text) :
    expr.result = .ok ⟨value, text⟩ := by
  rw [Expr.result, hvalue, mapError_ok, ok_bind, htext]
  rfl

theorem calculate_eq (hne : expression.length ≠ 0)
    (hlength : expression.length ≤ limits.maxInputLength) :
    calculate expression limits =
      Expr.ofText expression limits.maxDepth >>= Expr.result := by
  rw [calculate, if_neg hne, if_neg (by omega)]
  rfl

theorem calculate_eq_ok {result : Result} (hne : expression.length ≠ 0)
    (h : calculate expression limits = .ok result) :
    ∃ expr, Expr.ofText expression limits.maxDepth = .ok expr ∧
      expr.evaluate .standard = .ok result.value ∧ result.value.resultText = .ok result.text := by
  by_cases hlength : expression.length ≤ limits.maxInputLength
  · rw [calculate_eq hne hlength] at h
    simp only [Expr.result, bind_eq_ok_iff, mapError_eq_ok_iff] at h
    obtain ⟨expr, hexpr, value, hvalue, text, htext, hresult⟩ := h
    cases hresult
    exact ⟨expr, hexpr, hvalue, htext⟩
  · rw [calculate, if_neg hne, if_pos (by omega)] at h
    cases h

theorem Binary64.resultText_eq_error {value : Binary64} (h : value.resultText = .error fault) :
    fault = .nonFinite := by
  unfold Binary64.resultText at h
  split at h
  · split at h <;> cases h
  · cases h
    rfl

theorem calculate_eq_evaluation_fault
    (h : calculate expression limits = .error (.evaluation fault)) :
    ∃ expr, Expr.ofText expression limits.maxDepth = .ok expr ∧
      (expr.evaluate .standard = .error fault ∨ fault = .nonFinite) := by
  by_cases hne : expression.length = 0
  · rw [calculate, if_pos hne] at h
    cases h
  by_cases hlength : expression.length ≤ limits.maxInputLength
  · rw [calculate_eq hne hlength, bind_eq_error_iff] at h
    rcases h with h | ⟨expr, hexpr, h⟩
    · exact absurd h Expr.ofText_ne_evaluation
    · refine ⟨expr, hexpr, ?_⟩
      simp only [Expr.result, bind_eq_error_iff, mapError_eq_error_iff, mapError_eq_ok_iff] at h
      rcases h with ⟨fault', hfault', hsame⟩ | ⟨value, -, ⟨fault', hfault', hsame⟩ | ⟨text, -, h⟩⟩
      · cases hsame
        exact .inl hfault'
      · cases hsame
        exact .inr (Binary64.resultText_eq_error hfault')
      · cases h
  · rw [calculate, if_neg hne, if_pos (by omega)] at h
    cases h

/-! ## Calculations from lexemes -/

/-- A text that is read as an expression has the lexemes of a sum with this expression. -/
theorem Expr.exists_sum_of_ofText {text : String} {limit : Nat} {expr : Expr}
    (h : Expr.ofText text limit = .ok expr) :
    ∃ sum : Sum, Lexeme.ofChars text.toList = .ok sum.lexemes ∧ sum.expr = expr := by
  obtain ⟨tokens, htokens, hparse⟩ := Expr.ofText_eq_ok_iff.mp h
  obtain ⟨sum, hlexemes, hexpr⟩ := derives_of_ofTokens (Token.ofText_writes htokens) hparse
  refine ⟨sum, ?_, hexpr⟩
  rw [Token.ofText] at htokens
  rw [Lexeme.ofChars, htokens, hlexemes]
  rfl

/-- A line that succeeds without being blank has the lexemes of a sum, whose value it has. -/
theorem Calculation.exists_sum_of_ok {input : String} {result : Result}
    (hblank : ¬ ∀ c ∈ input.toList, Text.isBlank c)
    (h : (Calculation.ofText input limits).outcome = .ok result) :
    ∃ sum : Sum, Lexeme.ofChars input.toList = .ok sum.lexemes ∧
      sum.expr.evaluate .standard = .ok result.value ∧
      result.value.resultText = .ok result.text := by
  rw [Calculation.ofText_outcome] at h
  obtain ⟨expr, hexpr, hvalue, htext⟩ := calculate_eq_ok (Text.length_trim_ne_zero hblank) h
  obtain ⟨sum, hlexemes, rfl⟩ := Expr.exists_sum_of_ofText hexpr
  rw [String.toList_ofList, Lexeme.ofChars_trim] at hlexemes
  exact ⟨sum, hlexemes, hvalue, htext⟩

/-- The tokens of a text whose lexemes are known. -/
theorem Token.exists_ofText {text : String} (h : Lexeme.ofChars text.toList = .ok lexemes) :
    ∃ tokens, Token.ofText text = .ok tokens ∧ Writes tokens lexemes ∧
      tokens.length ≤ text.length + 1 := by
  rw [Lexeme.ofChars] at h
  cases htokens : Token.ofCharsFrom 0 text.toList with
  | error fault =>
    rw [htokens] at h
    cases h
  | ok tokens =>
    rw [htokens] at h
    cases h
    obtain ⟨hwrites, hcount⟩ := Token.ofCharsFrom_writes htokens
    rw [String.length_toList] at hcount
    exact ⟨tokens, htokens, hwrites, hcount⟩

/-- A text with the lexemes of a sum is read as the expression of the sum wherever that fits. -/
theorem Token.exists_ofText_of_sum {text : String} (sum : Sum)
    (h : Lexeme.ofChars text.toList = .ok sum.lexemes) :
    ∃ tokens, Token.ofText text = .ok tokens ∧
      ∀ limit, Fits limit limit sum.nesting sum.expr →
        Expr.ofTokens tokens limit = .ok sum.expr := by
  obtain ⟨tokens, htokens, hwrites, -⟩ := Token.exists_ofText h
  obtain ⟨first, rest, rfl⟩ := hwrites.exists_cons
  exact ⟨_, htokens, fun limit ↦ (ofTokens_guarded sum hwrites limit).fit⟩

theorem Calculation.exists_tokens {input : String} (hdepth : input.length < limits.maxDepth)
    (h : Lexeme.ofChars input.toList = .ok lexemes) :
    ∃ tokens, Token.ofText (.ofList (Text.trim input.toList)) = .ok tokens ∧
      Writes tokens lexemes ∧ tokens.length ≤ limits.maxDepth := by
  have htrim := Text.length_trim_le input.toList
  rw [String.length_toList] at htrim
  rw [← Lexeme.ofChars_trim, ← String.toList_ofList (l := Text.trim input.toList)] at h
  obtain ⟨tokens, htokens, hwrites, hcount⟩ := Token.exists_ofText h
  rw [String.length_ofList] at hcount
  exact ⟨tokens, htokens, hwrites, by omega⟩

section

variable {input : String} (hblank : ¬ ∀ c ∈ input.toList, Text.isBlank c)
  (hlength : input.length ≤ limits.maxInputLength)

include hblank hlength

theorem Calculation.outcome_eq : (Calculation.ofText input limits).outcome =
    Expr.ofText (.ofList (Text.trim input.toList)) limits.maxDepth >>= Expr.result := by
  have htrim := Text.length_trim_le input.toList
  rw [String.length_toList] at htrim
  rw [Calculation.ofText_outcome, calculate_eq (Text.length_trim_ne_zero hblank)]
  rw [String.length_ofList]
  omega

theorem Calculation.outcome_eq_character {c : Char}
    (h : Lexeme.ofChars input.toList = .error c) :
    ∃ fault, (Calculation.ofText input limits).outcome = .error (.character fault) := by
  rw [← Lexeme.ofChars_trim, Lexeme.ofChars] at h
  cases htokens : Token.ofCharsFrom 0 (Text.trim input.toList) with
  | ok tokens =>
    rw [htokens] at h
    cases h
  | error fault =>
    refine ⟨fault, ?_⟩
    rw [Calculation.outcome_eq hblank hlength, Expr.ofText, Token.ofText, String.toList_ofList,
      htokens]
    rfl

/-- A line with the lexemes of a sum that fits has the result of the expression of the sum. -/
theorem Calculation.outcome_eq_of_fits (sum : Sum)
    (h : Lexeme.ofChars input.toList = .ok sum.lexemes)
    (hfits : Fits limits.maxDepth limits.maxDepth sum.nesting sum.expr) :
    (Calculation.ofText input limits).outcome = sum.expr.result := by
  rw [← Lexeme.ofChars_trim, ← String.toList_ofList (l := Text.trim input.toList)] at h
  obtain ⟨tokens, htokens, hparse⟩ := Token.exists_ofText_of_sum sum h
  rw [Calculation.outcome_eq hblank hlength,
    Expr.ofText_eq_ok_iff.mpr ⟨tokens, htokens, hparse _ hfits⟩]
  rfl

variable (hdepth : input.length < limits.maxDepth)

include hdepth

/-- A line whose lexemes derive an expression has the result of this expression. -/
theorem Calculation.outcome_eq_result (h : Lexeme.ofChars input.toList = .ok lexemes)
    (hderives : Derives lexemes expr) :
    (Calculation.ofText input limits).outcome = expr.result := by
  obtain ⟨tokens, htokens, hwrites, hcount⟩ := Calculation.exists_tokens hdepth h
  have hparse := hderives.ofTokens hwrites hcount
  rw [Calculation.outcome_eq hblank hlength,
    Expr.ofText_eq_ok_iff.mpr ⟨tokens, htokens, hparse⟩]
  rfl

/-- A line whose lexemes derive no expression has a fault of its grammar. -/
theorem Calculation.outcome_eq_grammar (h : Lexeme.ofChars input.toList = .ok lexemes)
    (hderives : ∀ expr, ¬ Derives lexemes expr) :
    ∃ fault, (Calculation.ofText input limits).outcome = .error (.grammar fault) := by
  obtain ⟨tokens, htokens, hwrites, hcount⟩ := Calculation.exists_tokens hdepth h
  obtain ⟨first, rest, rfl⟩ := hwrites.exists_cons
  rcases ofTokens_outcome hwrites limits.maxDepth with
    ⟨expr, -, hexpr⟩ | ⟨fault, hfault, -⟩ | ⟨-, hdeep⟩
  · exact absurd hexpr (hderives expr)
  · refine ⟨fault, ?_⟩
    rw [Calculation.outcome_eq hblank hlength, Expr.ofText, htokens]
    change Expr.ofTokens (first :: rest) limits.maxDepth >>= Expr.result = _
    rw [hfault]
    rfl
  · omega

end

end Reckoner
