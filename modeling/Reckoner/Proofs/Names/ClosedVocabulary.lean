import Reckoner.Proofs.Names.Uses
import Reckoner.Proofs.Stages

/-!
# The Closed Vocabulary

Ten functions and two constants are all that a line of text can use.  A calculation that succeeds
has every name of its text in its role and with a number of arguments that it takes; and a fault
over a name is about a name of the text that the vocabulary does not have in its role.
-/

namespace Reckoner

open Grammar

/-! ## The standard names -/

def functionNames : List String :=
  ["sin", "cos", "tan", "sqrt", "log", "abs", "round", "pow", "int", "float"]

def constantNames : List String := ["pi", "e"]

namespace Vocabulary

theorem standard_names :
    standard.entries.map Prod.fst = constantNames ++ functionNames := rfl

theorem lookup_standard_eq_none {text : String} (hconstant : text ∉ constantNames)
    (hfunction : text ∉ functionNames) : standard.entry? text = none := by
  unfold entry?
  rw [List.lookup_eq_none_iff]
  intro entry hentry
  have hname : entry.1 ∈ constantNames ++ functionNames := by
    rw [← standard_names]
    exact List.mem_map_of_mem hentry
  rw [bne_iff_ne]
  rintro rfl
  rcases List.mem_append.mp hname with h | h
  · exact hconstant h
  · exact hfunction h

/-- The functions of the vocabulary have these names and no others. -/
theorem isSome_function?_iff (text : String) :
    (standard.function? text).isSome ↔ text ∈ functionNames := by
  have hmem : ∀ text ∈ functionNames, (standard.function? text).isSome := by decide
  have hother : ∀ text ∈ constantNames, ¬ (standard.function? text).isSome := by decide
  refine ⟨fun h ↦ ?_, hmem text⟩
  by_contra hfunction
  by_cases hconstant : text ∈ constantNames
  · exact hother text hconstant h
  · rw [function?, lookup_standard_eq_none hconstant hfunction] at h
    cases h

/-- The constants of the vocabulary have these names and no others. -/
theorem isSome_constant?_iff (text : String) :
    (standard.constant? text).isSome ↔ text ∈ constantNames := by
  have hmem : ∀ text ∈ constantNames, (standard.constant? text).isSome := by decide
  have hother : ∀ text ∈ functionNames, ¬ (standard.constant? text).isSome := by decide
  refine ⟨fun h ↦ ?_, hmem text⟩
  by_contra hconstant
  by_cases hfunction : text ∈ functionNames
  · exact hother text hfunction h
  · rw [constant?, lookup_standard_eq_none hconstant hfunction] at h
    cases h

theorem standard_blamesNoName : standard.BlamesNoName := by
  intro text function hfunction arguments name h
  rcases standardFunctions_fail (standardFunctions_of_function? hfunction).1 h with
    hfault | ⟨hfault, -⟩
  · exact hfault
  · cases hfault

end Vocabulary

/-! ## Names in a text -/

/-- A name that these lexemes follow is in its role: before an opening bracket it is a function
that takes as many arguments as stand in the brackets, and otherwise it is a constant. -/
def InRole (text : String) : (after : List Lexeme) → Prop
  | .opening :: inside => text ∈ functionNames ∧
      ∃ function, Vocabulary.standard.function? text = some function ∧
        function.arity.accepts (Lexeme.argumentCount inside)
  | _ => text ∈ constantNames

/-- A name that these lexemes follow is in a role that it does not have: before an opening bracket
it is no function, or otherwise it is no constant. -/
def OutOfRole (text : String) : (after : List Lexeme) → Prop
  | .opening :: _ => text ∉ functionNames
  | _ => text ∉ constantNames

theorem inRole_of_admitted {text : String} {after : List Lexeme}
    (h : (Lexeme.useOf text after).Admitted .standard) : InRole text after := by
  unfold Lexeme.useOf at h
  split at h
  case h_1 inside =>
    obtain ⟨function, hfunction, haccepts⟩ := h
    have hmem : text ∈ functionNames := by
      rw [← Vocabulary.isSome_function?_iff, hfunction]
      rfl
    exact ⟨hmem, function, hfunction, haccepts⟩
  case h_2 hnot =>
    have hmem : text ∈ constantNames := (Vocabulary.isSome_constant?_iff text).mp h
    unfold InRole
    split
    case h_1 inside => exact absurd rfl (hnot inside)
    case h_2 => exact hmem

theorem outOfRole_of_not_known {text : String} {after : List Lexeme}
    (h : ¬ (Lexeme.useOf text after).Known .standard) : OutOfRole text after := by
  unfold Lexeme.useOf at h
  split at h
  case h_1 inside =>
    intro hmem
    exact h ((Vocabulary.isSome_function?_iff text).mpr hmem)
  case h_2 hnot =>
    have hmem : text ∉ constantNames := by
      intro hmem
      exact h ((Vocabulary.isSome_constant?_iff text).mpr hmem)
    unfold OutOfRole
    split
    case h_1 inside => exact absurd rfl (hnot inside)
    case h_2 => exact hmem

/-- The uses of names in the tokens of a text are those in its expression. -/
theorem usesOf_tokens {text : String} {limit : Nat} {tokens : List Token} {expr : Expr}
    (htokens : Token.ofText text = .ok tokens) (hexpr : Expr.ofTokens tokens limit = .ok expr) :
    Lexeme.usesOf (tokens.map Token.lexeme) = expr.uses := by
  have hwrites := Token.ofText_writes htokens
  obtain ⟨sum, hlexemes, rfl⟩ := derives_of_ofTokens hwrites hexpr
  rw [hwrites.1, ← hlexemes, sum.usesOf_append (by decide)]
  exact List.append_nil _

/-- A list of tokens is cut where its lexemes are. -/
theorem exists_token_of_lexemes {tokens : List Token} {before after : List Lexeme} {text : String}
    (h : tokens.map Token.lexeme = before ++ .name text :: after) :
    ∃ before' position after', tokens = before' ++ ⟨.name text, position⟩ :: after' ∧
      after'.map Token.lexeme = after := by
  obtain ⟨before', rest, rfl, -, hrest⟩ := List.map_eq_append_iff.mp h
  obtain ⟨token, after', rfl, hlexeme, hafter⟩ := List.map_eq_cons_iff.mp hrest
  obtain ⟨lexeme, position⟩ := token
  exact ⟨before', position, after', by rw [← hlexeme], hafter⟩

/-- A line that is not blank succeeds only if every name of its text is in its role, and fails over
a name only if the text has it out of its role. -/
theorem ofText_closedVocabulary (input : String) (limits : Limits) :
    (∀ result, (Calculation.ofText input limits).outcome = .ok result →
      ¬ (∀ c ∈ input.toList, Text.isBlank c) →
      ∃ tokens, Token.ofText (Calculation.ofText input limits).expression = .ok tokens ∧
        ∀ before text position after, tokens = before ++ ⟨.name text, position⟩ :: after →
          InRole text (after.map Token.lexeme)) ∧
    (∀ text, (Calculation.ofText input limits).outcome = .error (.evaluation (.unknownName text)) →
      ∃ tokens, Token.ofText (Calculation.ofText input limits).expression = .ok tokens ∧
        ∃ before position after, tokens = before ++ ⟨.name text, position⟩ :: after ∧
          OutOfRole text (after.map Token.lexeme)) := by
  constructor
  · intro result hresult hblank
    rw [Calculation.ofText_outcome] at hresult
    obtain ⟨expr, hexpr, hvalue, -⟩ := calculate_eq_ok (Text.length_trim_ne_zero hblank) hresult
    obtain ⟨tokens, htokens, hparse⟩ := Expr.ofText_eq_ok_iff.mp hexpr
    refine ⟨tokens, htokens, fun before text position after hsplit ↦ ?_⟩
    apply inRole_of_admitted
    apply expr.admitted_of_evaluate hvalue
    rw [← usesOf_tokens htokens hparse, Lexeme.mem_usesOf_iff]
    refine ⟨before.map Token.lexeme, text, after.map Token.lexeme, ?_, rfl⟩
    rw [hsplit, List.map_append, List.map_cons]
  · intro text hfault
    rw [Calculation.ofText_outcome] at hfault
    obtain ⟨expr, hexpr, hevaluate | hfinite⟩ := calculate_eq_evaluation_fault hfault
    · obtain ⟨tokens, htokens, hparse⟩ := Expr.ofText_eq_ok_iff.mp hexpr
      obtain ⟨use, huse, hname, hunknown⟩ :=
        expr.unknown_of_evaluate Vocabulary.standard_blamesNoName hevaluate
      rw [← usesOf_tokens htokens hparse] at huse
      obtain ⟨before, text', after, hlexemes, rfl⟩ := Lexeme.mem_usesOf_iff.mp huse
      have htext : text' = text := by
        rw [← hname]
        unfold Lexeme.useOf
        split <;> rfl
      subst htext
      obtain ⟨before', position, after', hsplit, hafter⟩ := exists_token_of_lexemes hlexemes
      refine ⟨tokens, htokens, before', position, after', hsplit, ?_⟩
      rw [hafter]
      exact outOfRole_of_not_known hunknown
    · cases hfinite

theorem ofText_closedVocabulary_pow :
    (∃ tokens, Token.ofText (Calculation.ofText " pow(2, abs(e))" {}).expression = .ok tokens ∧
      ∀ before text position after, tokens = before ++ ⟨.name text, position⟩ :: after →
        InRole text (after.map Token.lexeme)) ∧
    (∃ tokens, Token.ofText (Calculation.ofText "1 + (sin) * e" {}).expression = .ok tokens ∧
      ∃ before position after, tokens = before ++ ⟨.name "sin", position⟩ :: after ∧
        OutOfRole "sin" (after.map Token.lexeme)) := by
  constructor
  · have hsuccess : (Calculation.ofText " pow(2, abs(e))" {}).isSuccess := by decide +kernel
    rw [Calculation.isSuccess] at hsuccess
    split at hsuccess
    case h_1 result hresult =>
      have hblank : ¬ ∀ c ∈ " pow(2, abs(e))".toList, Text.isBlank c :=
        fun h ↦ absurd (h 'p' (by decide)) (by decide)
      exact (ofText_closedVocabulary _ _).1 result hresult hblank
    case h_2 => cases hsuccess
  · have hfault : (Calculation.ofText "1 + (sin) * e" {}).outcome =
        .error (.evaluation (.unknownName "sin")) := by
      decide +kernel
    exact (ofText_closedVocabulary _ _).2 "sin" hfault

end Reckoner
