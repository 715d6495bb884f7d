import Reckoner.Proofs.Grammar.Substitution
import Reckoner.Proofs.ResultText

/-!
# Brackets and Their Results

What stands in a bracket may be replaced by its printed result, in any text around it: also in one
that is not well-formed, and where the bracket is that of a call.  The text is cut into lexemes at
the bracket, its parser sees one sum in either, the printed result evaluates to the number that it
was printed from, but for the sign of a zero, and no context tells the zeros apart.
-/

namespace Reckoner

open Grammar Binary64

/-! ## Verdicts -/

/-- The faults are of one kind, and faults of evaluation are equal. -/
def Fault.SameVariant : Fault → Fault → Prop
  | .character _, .character _ => True
  | .grammar _, .grammar _ => True
  | .evaluation fault, .evaluation fault' => fault = fault'
  | .tooLong .., .tooLong .. => True
  | .tooDeep _, .tooDeep _ => True
  | _, _ => False

/-- The same text and the same number, but for the sign of a zero, or faults of one variant. -/
inductive SameVerdict : Except Fault Result → Except Fault Result → Prop where
  | ok {result result' : Result} (htext : result.text = result'.text)
      (hvalue : SameNumber result.value result'.value) : SameVerdict (.ok result) (.ok result')
  | error {fault fault' : Fault} (h : fault.SameVariant fault') :
      SameVerdict (.error fault) (.error fault')

theorem SameVerdict.of_eq {o o' p p' : Except Fault Result} (h : o = p) (h' : o' = p')
    (hsame : SameVerdict p p') : SameVerdict o o' := by
  rw [h, h']
  exact hsame

theorem Expr.SameValue.verdict {e e' : Expr} (h : SameValue .standard e e') :
    SameVerdict e.result e'.result := by
  rw [SameValue] at h
  rw [result, result]
  generalize e.evaluate .standard = outcome at h
  generalize e'.evaluate .standard = outcome' at h
  cases outcome with
  | error fault =>
    cases outcome' with
    | error fault' => exact .error h
    | ok value' => exact False.elim h
  | ok value =>
    cases outcome' with
    | error fault' => exact False.elim h
    | ok value' =>
      have hsame : SameNumber value value' := h
      have htext := hsame.resultText
      change SameVerdict (value.resultText.mapError .evaluation >>= fun text ↦ .ok ⟨value, text⟩)
        (value'.resultText.mapError .evaluation >>= fun text ↦ .ok ⟨value', text⟩)
      rw [htext]
      cases value'.resultText with
      | error fault => exact .error rfl
      | ok text => exact .ok rfl hsame

/-! ## Brackets in a text -/

/-- A text in brackets between two others. -/
def bracketed (u s w : String) : String := u ++ "(" ++ s ++ ")" ++ w

/-- The line is shorter than both limits, so that neither shows. -/
def Limits.Exceed (limits : Limits) (line : String) : Prop :=
  line.length < limits.maxInputLength ∧ line.length < limits.maxDepth

theorem toList_bracketed (u s w : String) :
    (bracketed u s w).toList = u.toList ++ '(' :: (s.toList ++ ')' :: w.toList) := by
  simp [bracketed]

theorem bracketed_not_blank (u s w : String) :
    ¬ ∀ c ∈ (bracketed u s w).toList, Text.isBlank c := by
  intro h
  have hopening : Text.isBlank '(' := by
    apply h
    simp [toList_bracketed]
  exact absurd hopening (by decide)

section

variable {limits : Limits} {sum sum' : Sum}

theorem sameVerdict_of_lexemes {line line' : String} {before after : List Lexeme}
    (hblank : ¬ ∀ c ∈ line.toList, Text.isBlank c) (hblank' : ¬ ∀ c ∈ line'.toList, Text.isBlank c)
    (hlimits : limits.Exceed line) (hlimits' : limits.Exceed line')
    (h : Lexeme.ofChars line.toList =
      .ok (before ++ .opening :: (sum.lexemes ++ .closing :: after)))
    (h' : Lexeme.ofChars line'.toList =
      .ok (before ++ .opening :: (sum'.lexemes ++ .closing :: after)))
    (hsame : Expr.SameValue .standard sum.expr sum'.expr) :
    SameVerdict (Calculation.ofText line limits).outcome
      (Calculation.ofText line' limits).outcome := by
  by_cases hderives :
      ∃ expr, Derives (before ++ .opening :: (sum.lexemes ++ .closing :: after)) expr
  · obtain ⟨expr, hexpr⟩ := hderives
    obtain ⟨context, hcontext⟩ := hexpr.exists_context
    have houtcome := Calculation.outcome_eq_result hblank hlimits.1.le hlimits.2 h (hcontext sum)
    have houtcome' :=
      Calculation.outcome_eq_result hblank' hlimits'.1.le hlimits'.2 h' (hcontext sum')
    have hfill := context.fill_sameValue Vocabulary.standard_ignoresZeroSign hsame
    exact .of_eq houtcome houtcome' hfill.verdict
  · have hnone := not_exists.mp hderives
    have hnone' : ∀ expr,
        ¬ Derives (before ++ .opening :: (sum'.lexemes ++ .closing :: after)) expr := by
      intro expr hexpr
      obtain ⟨context, hcontext⟩ := hexpr.exists_context
      exact hnone _ (hcontext sum)
    obtain ⟨fault, hfault⟩ :=
      Calculation.outcome_eq_grammar hblank hlimits.1.le hlimits.2 h hnone
    obtain ⟨fault', hfault'⟩ :=
      Calculation.outcome_eq_grammar hblank' hlimits'.1.le hlimits'.2 h' hnone'
    exact .of_eq hfault hfault' (.error trivial)

/-- Sums of the same value may stand for each other in brackets. -/
theorem sameVerdict_bracketed {s s' : String}
    (hs : Lexeme.ofChars s.toList = .ok sum.lexemes)
    (hs' : Lexeme.ofChars s'.toList = .ok sum'.lexemes)
    (hsame : Expr.SameValue .standard sum.expr sum'.expr) (u w : String)
    (hlimits : limits.Exceed (bracketed u s w)) (hlimits' : limits.Exceed (bracketed u s' w)) :
    SameVerdict (Calculation.ofText (bracketed u s w) limits).outcome
      (Calculation.ofText (bracketed u s' w) limits).outcome := by
  have hlexemes := Lexeme.ofChars_bracket hs u.toList w.toList
  have hlexemes' := Lexeme.ofChars_bracket hs' u.toList w.toList
  rw [← toList_bracketed] at hlexemes hlexemes'
  have hblank := bracketed_not_blank u s w
  have hblank' := bracketed_not_blank u s' w
  have hcharacter : ∀ c, Lexeme.ofChars (bracketed u s w).toList = .error c →
      Lexeme.ofChars (bracketed u s' w).toList = .error c →
      SameVerdict (Calculation.ofText (bracketed u s w) limits).outcome
        (Calculation.ofText (bracketed u s' w) limits).outcome := by
    intro c hc hc'
    obtain ⟨fault, hfault⟩ := Calculation.outcome_eq_character hblank hlimits.1.le hc
    obtain ⟨fault', hfault'⟩ := Calculation.outcome_eq_character hblank' hlimits'.1.le hc'
    exact .of_eq hfault hfault' (.error trivial)
  cases hu : Lexeme.ofChars u.toList with
  | error c =>
    rw [hu] at hlexemes hlexemes'
    exact hcharacter c hlexemes hlexemes'
  | ok before =>
    cases hw : Lexeme.ofChars w.toList with
    | error c =>
      rw [hu, hw] at hlexemes hlexemes'
      exact hcharacter c hlexemes hlexemes'
    | ok after =>
      rw [hu, hw] at hlexemes hlexemes'
      exact sameVerdict_of_lexemes hblank hblank' hlimits hlimits' hlexemes hlexemes' hsame

end

/-- What stands in a bracket may be replaced by its printed result. -/
theorem bracketed_result_sameVerdict (u s w : String) (limits : Limits) {result : Result}
    (hblank : ¬ ∀ c ∈ s.toList, Text.isBlank c)
    (hresult : (Calculation.ofText s limits).outcome = .ok result)
    (hlimits : limits.Exceed (bracketed u s w))
    (hlimits' : limits.Exceed (bracketed u result.text w)) :
    SameVerdict (Calculation.ofText (bracketed u s w) limits).outcome
      (Calculation.ofText (bracketed u result.text w) limits).outcome := by
  obtain ⟨sum, hlexemes, hvalue, htext⟩ := Calculation.exists_sum_of_ok hblank hresult
  obtain ⟨sum', hlexemes', hvalue'⟩ := resultText_reads htext .standard
  have hsame : Expr.SameValue .standard sum.expr sum'.expr := by
    rw [Expr.SameValue, hvalue]
    exact hvalue'
  exact sameVerdict_bracketed hlexemes hlexemes' hsame u w hlimits hlimits'

theorem bracketed_difference_sameVerdict :
    ∃ result : Result, result.text = "-3" ∧
      (Calculation.ofText " 2 - 5 " {}).outcome = .ok result ∧
      SameVerdict (Calculation.ofText (bracketed "2^abs" " 2 - 5 " "/4") {}).outcome
        (Calculation.ofText (bracketed "2^abs" result.text "/4") {}).outcome := by
  have hresult : (Calculation.ofText " 2 - 5 " {}).outcome =
      .ok ⟨(Binary64.ofNat 3).neg, "-3"⟩ := by
    decide +kernel
  have hlimits : Limits.Exceed {} (bracketed "2^abs" " 2 - 5 " "/4") := by
    constructor <;> decide +kernel
  have hlimits' : Limits.Exceed {} (bracketed "2^abs" "-3" "/4") := by
    constructor <;> decide +kernel
  have hblank : ¬ ∀ c ∈ " 2 - 5 ".toList, Text.isBlank c :=
    fun h ↦ absurd (h '2' (by decide)) (by decide)
  have hverdict := bracketed_result_sameVerdict "2^abs" " 2 - 5 " "/4" {} hblank hresult hlimits
    hlimits'
  exact ⟨_, rfl, hresult, hverdict⟩

end Reckoner
