import Reckoner.Proofs.Binary64.ZeroSign
import Reckoner.Proofs.Lexing.Spelling
import Reckoner.Proofs.Numeral.Layout
import Reckoner.Proofs.Stages

/-!
# Results Entered Again

The text of a result is one number, after a minus if the result is negative, and has at most 24
characters: a sign, seventeen digits with a point, and an exponent of three digits with its letter
and its sign.  So it is accepted as an expression wherever that many characters and a negation are,
and gives the number that it is the text of, but for the sign of a zero.
-/

namespace Reckoner

open Grammar Binary64

/-! ## Results as sums -/

/-- The sum that the text of a finite number writes: zeros have no sign. -/
def Grammar.Sum.ofResult (negative : Bool) (m : Magnitude) : Sum :=
  let operand : Operand := .number (.finite false m)
  if negative ∧ m.units ≠ 0 then operand.neg else operand.sum

/-- The number with zeros of a clear sign. -/
def Binary64.withClearZero (value : Binary64) : Binary64 := if value.isZero then .zero else value

theorem Binary64.withClearZero_sameNumber (value : Binary64) :
    SameNumber value.withClearZero value := by
  rw [withClearZero]
  split
  case isTrue hzero => exact .inr ⟨rfl, hzero⟩
  case isFalse => exact .refl value

theorem Magnitude.eq_zero {m : Magnitude} (h : m.units = 0) : m = .zero := Magnitude.ext h

variable {negative : Bool} {m : Magnitude} {vocabulary : Vocabulary}

/-- The sum of a result has the value of the result. -/
theorem Grammar.Sum.evaluate_ofResult :
    (ofResult negative m).expr.evaluate vocabulary =
      .ok (Binary64.finite negative m).withClearZero := by
  by_cases hzero : m.units = 0
  · have hclear : (Binary64.finite negative m).withClearZero = .zero :=
      if_pos (beq_iff_eq.mpr hzero)
    rw [ofResult, if_neg (fun h ↦ h.2 hzero), hclear, Magnitude.eq_zero hzero]
    rfl
  · have hclear : (Binary64.finite negative m).withClearZero = .finite negative m :=
      if_neg (fun h ↦ hzero (beq_iff_eq.mp h))
    rw [hclear, ofResult]
    cases negative with
    | false => rfl
    | true =>
      rw [if_pos ⟨rfl, hzero⟩]
      rfl

theorem Grammar.Sum.ofResult_lexemes_ne_nil : (ofResult negative m).lexemes ≠ [] := by
  rw [ofResult]
  split <;> exact List.cons_ne_nil _ _

/-- The sum of a result is not higher or nested deeper than a negation. -/
theorem Grammar.Sum.ofResult_fits {limit : Nat} (h : 2 ≤ limit) :
    Fits limit limit (ofResult negative m).nesting (ofResult negative m).expr := by
  rw [ofResult]
  split
  case isTrue => exact ⟨h, h⟩
  case isFalse => exact ⟨Nat.le_of_succ_le h, Nat.le_of_succ_le h⟩

/-! ## The text of a result -/

theorem Lexeme.ofChars_zero : Lexeme.ofChars ['0'] = .ok [.number .zero] := by
  let n : NumberText := ⟨['0'], none, none⟩
  have hvalid : n.Valid := .ofDigits (Numeral.allDigits_zeros 1) .nil (by simp)
  have hdigits : Numeral.readDigits (n.whole ++ n.fraction.getD []) = 0 :=
    Numeral.readDigits_zeros 1
  have hvalue : n.value = .zero := by
    rw [NumberText.value, hdigits]
    exact ofDecimal_zero false _
  rw [← hvalue]
  exact (Spells.number hvalid).ofChars

/-- The shortest decimal of a magnitude is one lexeme. -/
theorem Lexeme.ofChars_decimalText (m : Magnitude) :
    Lexeme.ofChars (decimalText (Numeral.shortest m)) = .ok [.number (.finite false m)] := by
  obtain ⟨n, hvalid, hchars, hvalue⟩ := Numeral.exists_decimalText (Numeral.shortest m)
  rw [← hchars, (Spells.number hvalid).ofChars, hvalue, Numeral.shortest_toBinary64]

theorem Binary64.length_decimalText_shortest_le (hne : m.units ≠ 0) :
    (decimalText (Numeral.shortest m)).length ≤ 23 :=
  Numeral.length_decimalText_le (Numeral.length_shortest_digits_le hne)
    (Numeral.natAbs_shortest_leadingExponent_lt hne)

/-- The text of a finite number is that of its sum, and has at most 24 characters. -/
theorem Binary64.exists_resultText (negative : Bool) (m : Magnitude) :
    ∃ text, (Binary64.finite negative m).resultText = .ok text ∧ text.length ≤ 24 ∧
      Lexeme.ofChars text.toList = .ok (Sum.ofResult negative m).lexemes := by
  rw [resultText, Sum.ofResult]
  by_cases hzero : m.units = 0
  · rw [if_pos hzero, if_neg (fun h ↦ h.2 hzero), Magnitude.eq_zero hzero]
    exact ⟨_, rfl, by decide, Lexeme.ofChars_zero⟩
  · rw [if_neg hzero]
    refine ⟨_, rfl, ?_, ?_⟩
    · have hdecimal := length_decimalText_shortest_le hzero
      have hsign : (Numeral.signText negative).length ≤ 1 := by cases negative <;> decide
      rw [String.length_ofList, List.length_append]
      omega
    · rw [String.toList_ofList]
      cases negative with
      | false =>
        rw [if_neg (fun h ↦ Bool.false_ne_true h.1), Numeral.signText_false_append,
          Lexeme.ofChars_decimalText]
        rfl
      | true =>
        rw [if_pos ⟨rfl, hzero⟩, Numeral.signText_true_append]
        exact Lexeme.ofChars_mark_eq_ok rfl (Lexeme.ofChars_decimalText m)

/-- Only finite numbers have a text, and it is that of their sum. -/
theorem Binary64.resultText_eq_ok {value : Binary64} {text : String}
    (h : value.resultText = .ok text) :
    ∃ negative m, value = .finite negative m ∧ text.length ≤ 24 ∧
      Lexeme.ofChars text.toList = .ok (Sum.ofResult negative m).lexemes := by
  cases value with
  | nan => cases h
  | infinite negative => cases h
  | finite negative m =>
    obtain ⟨text', htext', hlength, hlexemes⟩ := exists_resultText negative m
    cases htext'.symm.trans h
    exact ⟨negative, m, rfl, hlength, hlexemes⟩

/-- A printed result is a sum of the same value. -/
theorem Binary64.resultText_reads {value : Binary64} {text : String}
    (h : value.resultText = .ok text) (vocabulary : Vocabulary) :
    ∃ sum : Sum, Lexeme.ofChars text.toList = .ok sum.lexemes ∧
      SameOutcome (.ok value) (sum.expr.evaluate vocabulary) := by
  obtain ⟨negative, m, rfl, -, hlexemes⟩ := resultText_eq_ok h
  refine ⟨.ofResult negative m, hlexemes, ?_⟩
  rw [Sum.evaluate_ofResult]
  exact (withClearZero_sameNumber (.finite negative m)).symm

/-! ## The text of a result entered again -/

/-- The text of a result is accepted as an expression, and gives the result. -/
theorem Calculation.outcome_resultText {limits : Limits} (hlength : 24 ≤ limits.maxInputLength)
    (hdepth : 2 ≤ limits.maxDepth) {value : Binary64} {text : String}
    (h : value.resultText = .ok text) :
    (Calculation.ofText text limits).outcome = .ok ⟨value.withClearZero, text⟩ := by
  have htext : value.withClearZero.resultText = .ok text := by
    rw [(withClearZero_sameNumber value).resultText, h]
  obtain ⟨negative, m, rfl, hwidth, hlexemes⟩ := resultText_eq_ok h
  have hblank := Lexeme.not_blank_of_ofChars hlexemes Sum.ofResult_lexemes_ne_nil
  rw [Calculation.outcome_eq_of_fits hblank (hwidth.trans hlength) _ hlexemes
    (Sum.ofResult_fits hdepth)]
  exact Expr.result_eq_ok Sum.evaluate_ofResult htext

/-- Numbers with one text are the same number. -/
theorem Binary64.sameNumber_of_resultText {value value' : Binary64} {text : String}
    (h : value.resultText = .ok text) (h' : value'.resultText = .ok text) :
    SameNumber value value' := by
  have hlength : 24 ≤ Limits.maxInputLength ⟨24, 2⟩ := Nat.le_refl 24
  have hdepth : 2 ≤ Limits.maxDepth ⟨24, 2⟩ := Nat.le_refl 2
  have houtcome := Calculation.outcome_resultText hlength hdepth h
  rw [Calculation.outcome_resultText hlength hdepth h'] at houtcome
  have hclear : value'.withClearZero = value.withClearZero :=
    congrArg Result.value (Except.ok.inj houtcome)
  have hsame := (withClearZero_sameNumber value).symm
  rw [← hclear] at hsame
  exact hsame.trans (withClearZero_sameNumber value')

/-- The text of a finite result, entered again, gives the same number and the same text, and no
other number has this text. -/
theorem Binary64.resultText_reads_back {value : Binary64} (hfinite : value.isFinite)
    {limits : Limits} (hlength : 24 ≤ limits.maxInputLength) (hdepth : 2 ≤ limits.maxDepth) :
    ∃ text, value.resultText = .ok text ∧
      (Calculation.ofText text limits).outcome = .ok ⟨value.withClearZero, text⟩ ∧
      ∀ value' : Binary64, value'.resultText = .ok text → SameNumber value' value := by
  cases value with
  | nan => cases hfinite
  | infinite negative => cases hfinite
  | finite negative m =>
    obtain ⟨text, htext, -, -⟩ := exists_resultText negative m
    exact ⟨text, htext, Calculation.outcome_resultText hlength hdepth htext,
      fun value' htext' ↦ sameNumber_of_resultText htext' htext⟩

/-- The least double of full precision, 2^-1022, with a minus. -/
def Binary64.leastNormalNegated : Binary64 :=
  .finite true ⟨twoPow 52, by decide +kernel, by decide +kernel⟩

/-- Its text takes all 24 characters, and reading it the negation that two levels allow. -/
theorem Binary64.leastNormalNegated_reads_back :
    leastNormalNegated.resultText = .ok "-2.2250738585072014e-308" ∧
      (Calculation.ofText "-2.2250738585072014e-308" ⟨24, 2⟩).outcome =
        .ok ⟨leastNormalNegated, "-2.2250738585072014e-308"⟩ := by
  have hlength : 24 ≤ Limits.maxInputLength ⟨24, 2⟩ := Nat.le_refl 24
  have hdepth : 2 ≤ Limits.maxDepth ⟨24, 2⟩ := Nat.le_refl 2
  have hresult : leastNormalNegated.resultText = .ok "-2.2250738585072014e-308" := by
    decide +kernel
  obtain ⟨text, htext, houtcome, -⟩ :=
    resultText_reads_back (rfl : leastNormalNegated.isFinite) hlength hdepth
  cases htext.symm.trans hresult
  exact ⟨hresult, houtcome⟩

end Reckoner
