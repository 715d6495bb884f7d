import Reckoner.Proofs.Json.Numbers
import Reckoner.Proofs.ResultText
import Reckoner.Proofs.Web.Verdict

/-!
# Numbers as Expressions

A body may hold its expression as a number, which is worked out as the text that it is written as.
This text is one number, after a minus if it is negative, a zero with a sign included, so nothing of
it is split off or refused, and the result is the text of the double nearest to the number.
-/

namespace Reckoner

open Grammar Binary64

/-! ## A number with its sign as a sum -/

/-- The sum that a number with its sign writes, also if it is a zero. -/
def Grammar.Sum.ofSigned (negative : Bool) (m : Magnitude) : Sum :=
  let operand : Operand := .number (.finite false m)
  if negative then operand.neg else operand.sum

variable {negative : Bool} {m : Magnitude}

theorem Grammar.Sum.evaluate_ofSigned (vocabulary : Vocabulary) :
    (ofSigned negative m).expr.evaluate vocabulary = .ok (.finite negative m) := by
  cases negative <;> rfl

theorem Grammar.Sum.ofSigned_lexemes_ne_nil : (ofSigned negative m).lexemes ≠ [] := by
  cases negative <;> exact List.cons_ne_nil _ _

theorem Grammar.Sum.ofSigned_fits {limit : Nat} (h : 2 ≤ limit) :
    Fits limit limit (ofSigned negative m).nesting (ofSigned negative m).expr := by
  cases negative with
  | false => exact ⟨Nat.le_of_succ_le h, Nat.le_of_succ_le h⟩
  | true => exact ⟨h, h⟩

/-- A written number after its sign is this sum. -/
theorem Lexeme.ofChars_signed {w : NumberText} (hvalid : w.Valid)
    (hvalue : w.value = .finite false m) :
    Lexeme.ofChars (Numeral.signText negative ++ w.chars) =
      .ok (Sum.ofSigned negative m).lexemes := by
  have hnumber : Lexeme.ofChars w.chars = .ok [.number (.finite false m)] := by
    rw [(Spells.number hvalid).ofChars, hvalue]
  cases negative with
  | false => exact hnumber
  | true => exact Lexeme.ofChars_mark_eq_ok rfl hnumber

/-- The text of a number is accepted as an expression, and gives the double nearest to it. -/
theorem Json.Number.outcome_text {n : Json.Number} (h : n.InRange) {limits : Limits}
    (hlength : 24 ≤ limits.maxInputLength) (hdepth : 2 ≤ limits.maxDepth) :
    ∃ text, n.toBinary64.resultText = .ok text ∧
      (Calculation.ofText n.text limits).outcome = .ok ⟨n.toBinary64, text⟩ := by
  obtain ⟨negative, m, w, hdouble, hvalid, hvalue, hchars, hwidth⟩ := exists_text h
  obtain ⟨text, htext, -, -⟩ := exists_resultText negative m
  have hlexemes : Lexeme.ofChars n.text.toList = .ok (Sum.ofSigned negative m).lexemes := by
    rw [hchars, Lexeme.ofChars_signed hvalid hvalue]
  have hblank := Lexeme.not_blank_of_ofChars hlexemes Sum.ofSigned_lexemes_ne_nil
  rw [hdouble, Calculation.outcome_eq_of_fits hblank (hwidth.trans hlength) _ hlexemes
    (Sum.ofSigned_fits hdepth)]
  exact ⟨text, htext, Expr.result_eq_ok (Sum.evaluate_ofSigned _) htext⟩

/-! ## Numbers in a body -/

namespace Json.Value

variable {tree : Tree} {n : Json.Number} {name : String} {value : Value}

theorem ofTree?_eq_number (h : ofTree? tree = some (.number n)) :
    ∃ written, tree = .number written ∧ written.value? = some n := by
  cases tree with
  | number written =>
    obtain ⟨n', hn', heq⟩ := Option.map_eq_some_iff.mp h
    cases heq
    exact ⟨written, rfl, hn'⟩
  | _ => simp [ofTree?] at h

theorem ofTree?_eq_object {members : List (String × Value)}
    (h : ofTree? tree = some (.object members)) :
    ∃ trees, tree = .object trees ∧ ofMembers? trees = some members := by
  cases tree with
  | object trees =>
    obtain ⟨members', hmembers, heq⟩ := Option.map_eq_some_iff.mp h
    cases heq
    exact ⟨trees, rfl, hmembers⟩
  | _ => simp [ofTree?] at h

/-- What a member holds is what a tree stands for. -/
theorem exists_tree_of_mem {trees : List (List Piece × Tree)} {members : List (String × Value)}
    (h : ofMembers? trees = some members) (hmem : (name, value) ∈ members) :
    ∃ tree, ofTree? tree = some value := by
  induction trees generalizing members with
  | nil =>
    cases h
    cases hmem
  | cons first rest ih =>
    obtain ⟨pieces, tree⟩ := first
    simp only [ofMembers?, Option.bind_eq_bind, Option.bind_eq_some_iff] at h
    obtain ⟨name', -, value', hvalue', members', hmembers', heq⟩ := h
    cases heq
    rcases List.mem_cons.mp hmem with heq | hmem
    · cases heq
      exact ⟨tree, hvalue'⟩
    · exact ih hmembers' hmem

/-- A number that is a member of what a tree stands for is in range. -/
theorem inRange_of_hasMember (h : ofTree? tree = some value)
    (hmember : value.HasMember name (.number n)) : n.InRange := by
  obtain ⟨-⟩ := hmember
  obtain ⟨trees, -, hmembers⟩ := ofTree?_eq_object h
  obtain ⟨tree, htree⟩ := exists_tree_of_mem hmembers (List.mem_append_right _ List.mem_cons_self)
  obtain ⟨written, -, hwritten⟩ := ofTree?_eq_number htree
  exact written.value?_inRange hwritten

end Json.Value

namespace Web

open Json (Value)

/-- What a body that is read holds is in range. -/
theorem inRange_of_readBody {contentType : Option String} {body : ByteArray} {value : Value}
    {n : Json.Number} (h : readBody contentType body = some value)
    (hmember : value.HasMember "expr" (.number n)) : n.InRange := by
  simp only [readBody, Option.bind_eq_bind, Option.bind_eq_some_iff] at h
  obtain ⟨-, -, mediaType, -, h⟩ := h
  split at h
  case isTrue =>
    simp only [Option.bind_eq_some_iff] at h
    obtain ⟨text, -, tree, -, htree⟩ := h
    exact Value.inRange_of_hasMember htree hmember
  case isFalse => cases h

/-! ## Numeric expressions -/

/-- A numeric expression evaluates to itself.  For every integer of 64 bits, with a sign or without,
and every finite double, and so for every number that a body is read with, the status of the reply
says that all went well, and its body is a JSON text that says so too and holds the text of the
double nearest to the number as its result.  It is also the reply to the string that the number is
written as. -/
theorem numericExpression_evaluates_to_itself {limits : Limits}
    (hlength : 24 ≤ limits.maxInputLength) (hdepth : 2 ≤ limits.maxDepth) {value : Value}
    {n : Json.Number} (hmember : value.HasMember "expr" (.number n))
    (hn : n.InRange ∨ ∃ contentType body, readBody contentType body = some value) :
    (∃ negative m, n.toBinary64 = .finite negative m ∧ IsNearest negative m n.units) ∧
      (∃ text, n.toBinary64.resultText = .ok text ∧
        (calculationReply limits (some value)).status = 200 ∧
        (calculationReply limits (some value)).contentType = some "application/json" ∧
        Answer.ofText? (calculationReply limits (some value)).body =
          some { ok := true, result := some text, error := none }) ∧
      ∀ value' : Value, value'.HasMember "expr" (.string n.text) →
        calculationReply limits (some value') = calculationReply limits (some value) := by
  have hrange : n.InRange := by
    rcases hn with hrange | ⟨contentType, body, hread⟩
    · exact hrange
    · exact inRange_of_readBody hread hmember
  obtain ⟨text, htext, houtcome⟩ := Json.Number.outcome_text hrange hlength hdepth
  have hreply := calculationReply_of_ok (.number hmember) houtcome
  refine ⟨Json.Number.exists_toBinary64 hrange, ⟨text, htext, ?_⟩, fun value' hmember' ↦ ?_⟩
  · rw [hreply, answerReply, Answer.ofText?_toText]
    exact ⟨rfl, rfl, rfl⟩
  · rw [hreply, calculationReply_of_ok (.string hmember') houtcome]

/-- The least double of full precision with a minus takes all 24 characters and both levels. -/
theorem leastNormalNegated_evaluates_to_itself :
    (Json.Number.real leastNormalNegated).text = "-2.2250738585072014e-308" ∧
      (calculationReply ⟨24, 2⟩
        (some (.object [("expr", .number (.real leastNormalNegated))]))).status = 200 ∧
      Answer.ofText? (calculationReply ⟨24, 2⟩
        (some (.object [("expr", .number (.real leastNormalNegated))]))).body =
          some { ok := true, result := some "-2.2250738585072014e-308", error := none } := by
  have hmember : (Value.object [("expr", .number (.real leastNormalNegated))]).HasMember "expr"
      (.number (.real leastNormalNegated)) :=
    @Value.HasMember.last [] [] _ _ fun _ ↦ List.not_mem_nil
  have hresult : leastNormalNegated.resultText = .ok "-2.2250738585072014e-308" := by
    decide +kernel
  have hlength : 24 ≤ Limits.maxInputLength ⟨24, 2⟩ := Nat.le_refl 24
  have hdepth : 2 ≤ Limits.maxDepth ⟨24, 2⟩ := Nat.le_refl 2
  obtain ⟨-, ⟨text, htext, hstatus, -, hbody⟩, -⟩ :=
    numericExpression_evaluates_to_itself hlength hdepth hmember (.inl rfl)
  cases htext.symm.trans hresult
  exact ⟨by decide +kernel, hstatus, hbody⟩

end Web

end Reckoner
