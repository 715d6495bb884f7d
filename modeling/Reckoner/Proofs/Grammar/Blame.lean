import Reckoner.Proofs.Grammar.Parsing

/-!
# The First Impossible Token

A sentence is a sum and the end, and a list of lexemes is viable if it begins a sentence.  The
places of the grammar decide both: the viable lists are those with a run, and the sentences those
whose run is finished.  For the second the parser itself supplies the phrase, since it has nothing
to blame in such a list.

So the parser blames the first token with which the lexemes stop being viable.  It asks for an
operand where a number could have come, and otherwise for what the innermost open bracket needs.
-/

namespace Reckoner.Grammar

open Cursor

/-! ## Viable lexemes -/

/-- The lexemes begin a sentence. -/
def Viable (lexemes : List Lexeme) : Prop := ∃ rest, Sentence (lexemes ++ rest)

/-- A number may come after the lexemes, and with it any operand. -/
def WantsOperand (lexemes : List Lexeme) : Prop := ∃ value, Viable (lexemes ++ [.number value])

theorem Place.step_finish {place next : Place} (h : place.step .finish = some next) :
    next = .finished := by
  cases place <;> simp_all [Place.step, Place.beginOperand, Place.goOn]

/-- A finished run ends with the only end. -/
theorem exists_eq_append_finish {place : Place} {w : List Lexeme}
    (hrun : place.run w = some .finished) (hplace : place ≠ .finished) :
    ∃ u, w = u ++ [.finish] ∧ .finish ∉ u := by
  induction w generalizing place with
  | nil =>
    rw [Place.run_nil, Option.some_inj] at hrun
    exact absurd hrun hplace
  | cons lexeme w ih =>
    rw [Place.run_cons, Option.bind_eq_some_iff] at hrun
    obtain ⟨next, hstep, hrun⟩ := hrun
    by_cases hnext : next = .finished
    · subst hnext
      have hw : w = [] := by
        cases w with
        | nil => rfl
        | cons lexeme w => cases hrun
      rw [hw, Place.step_eq_finished hstep]
      exact ⟨[], rfl, List.not_mem_nil⟩
    · obtain ⟨u, rfl, hu⟩ := ih hrun hnext
      have hlexeme : lexeme ≠ .finish := by
        rintro rfl
        exact hnext (Place.step_finish hstep)
      refine ⟨lexeme :: u, rfl, ?_⟩
      simp [Ne.symm hlexeme, hu]

/-- What is blamed stops the run. -/
theorem Blames.run_eq_none {place : Place} {c : Cursor} {fault : Unexpected}
    (h : Blames place c fault) (hends : c.Ends) :
    place.run (c.tokens.map Token.lexeme) = none := by
  obtain ⟨u, c', p, hpath, hrun, hstep, -⟩ := h
  rw [(hpath.tokens hends).1, Place.run_append, hrun, Option.bind_some, Cursor.tokens,
    List.map_cons, Place.run_cons, hstep]
  rfl

theorem sentence_iff_run (w : List Lexeme) :
    Sentence w ↔ (Place.operand []).run w = some .finished := by
  refine ⟨Sentence.run, fun hrun ↦ ?_⟩
  obtain ⟨u, rfl, hu⟩ := exists_eq_append_finish hrun nofun
  let tokens := (u ++ [Lexeme.finish]).map fun lexeme ↦ Token.mk lexeme 0
  have hlexemes : tokens.map Token.lexeme = u ++ [.finish] := by
    rw [List.map_map]
    exact List.map_id _
  cases htokens : tokens with
  | nil => simp [tokens] at htokens
  | cons first rest =>
    rw [htokens] at hlexemes
    have hwrites : Writes (first :: rest) u := ⟨hlexemes, hu⟩
    rcases ofTokens_outcome hwrites (first :: rest).length with
      ⟨expr, -, sum, hsum, -⟩ | ⟨fault, -, hblame⟩ | ⟨-, hdeep⟩
    · exact ⟨sum, by rw [hsum]⟩
    · have hnone := hblame.run_eq_none hwrites.ends
      rw [Cursor.tokens, hlexemes, hrun] at hnone
      cases hnone
    · omega

theorem viable_iff_run (u : List Lexeme) :
    Viable u ↔ ∃ place, (Place.operand []).run u = some place := by
  constructor
  · rintro ⟨v, hsentence⟩
    have hrun := hsentence.run
    rw [Place.run_append, Option.bind_eq_some_iff] at hrun
    obtain ⟨place, hplace, -⟩ := hrun
    exact ⟨place, hplace⟩
  · rintro ⟨place, hplace⟩
    have hcompletion : ∃ v, place.run v = some .finished := by
      by_cases h : place = .finished
      · exact ⟨[], by rw [h, Place.run_nil]⟩
      · exact Place.exists_run_finished h
    obtain ⟨v, hv⟩ := hcompletion
    refine ⟨v, (sentence_iff_run _).mpr ?_⟩
    rw [Place.run_append, hplace, Option.bind_some, hv]

theorem viable_append_singleton_iff {u : List Lexeme} {place : Place}
    (hrun : (Place.operand []).run u = some place) (lexeme : Lexeme) :
    Viable (u ++ [lexeme]) ↔ ∃ next, place.step lexeme = some next := by
  rw [viable_iff_run, Place.run_append, hrun, Option.bind_some, Place.run_cons]
  cases place.step lexeme <;> simp

/-! ## Open brackets -/

/-- The brackets that are open after the lexemes, innermost first, if these were open before them.
A bracket that opens right after a name is that of a call. -/
def bracketsAfter (opened : List Bracket) (afterName : Bool) : List Lexeme → List Bracket
  | [] => opened
  | .opening :: rest =>
    bracketsAfter ((if afterName then .call else .group) :: opened) false rest
  | .closing :: rest => bracketsAfter opened.tail false rest
  | .name _ :: rest => bracketsAfter opened true rest
  | _ :: rest => bracketsAfter opened false rest

/-- The brackets that are still open after the lexemes, innermost first. -/
def openBrackets (lexemes : List Lexeme) : List Bracket := bracketsAfter [] false lexemes

def Place.isName : Place → Bool
  | .name _ => true
  | _ => false

theorem Place.bracketsAfter_beginOperand {stack : List Bracket} {next : Place} {lexeme : Lexeme}
    (h : Place.beginOperand stack lexeme = some next) (rest : List Lexeme) :
    bracketsAfter stack false (lexeme :: rest) = bracketsAfter next.stack next.isName rest := by
  cases lexeme <;> cases h <;> rfl

theorem Place.bracketsAfter_goOn {stack : List Bracket} {next : Place} {lexeme : Lexeme}
    (h : Place.goOn stack lexeme = some next) (afterName : Bool) (rest : List Lexeme) :
    bracketsAfter stack afterName (lexeme :: rest) =
      bracketsAfter next.stack next.isName rest := by
  rcases stack with _ | ⟨_ | _, outer⟩ <;> cases lexeme <;> cases h <;> rfl

theorem Place.bracketsAfter_step {place next : Place} {lexeme : Lexeme}
    (h : place.step lexeme = some next) (rest : List Lexeme) :
    bracketsAfter place.stack place.isName (lexeme :: rest) =
      bracketsAfter next.stack next.isName rest := by
  cases place with
  | operand stack => exact bracketsAfter_beginOperand h rest
  | argument stack =>
    rw [Place.step] at h
    split at h
    case isTrue hclosing =>
      subst hclosing
      cases h
      rfl
    case isFalse => exact bracketsAfter_beginOperand h rest
  | name stack =>
    rw [Place.step] at h
    split at h
    case isTrue hopening =>
      subst hopening
      cases h
      rfl
    case isFalse => exact bracketsAfter_goOn h true rest
  | done stack => exact bracketsAfter_goOn h false rest
  | finished => cases h

theorem Place.stack_eq_bracketsAfter {place next : Place} {u : List Lexeme}
    (hrun : place.run u = some next) :
    next.stack = bracketsAfter place.stack place.isName u := by
  induction u generalizing place with
  | nil =>
    cases hrun
    rfl
  | cons lexeme u ih =>
    rw [Place.run_cons, Option.bind_eq_some_iff] at hrun
    obtain ⟨between, hstep, hrun⟩ := hrun
    rw [Place.bracketsAfter_step hstep]
    exact ih hrun

/-! ## The fault -/

/-- What is asked for after an operand, by the innermost bracket that is open. -/
def closingText : Option Bracket → String
  | some .group => "')'"
  | some .call => "',' or ')'"
  | none => "an operator or end of input"

/-- The fault carries the first token with which the lexemes stop being viable, and asks for an
operand where one is wanted, and for what may follow an operand otherwise. -/
def BlamesFirstImpossible (tokens : List Token) (fault : Unexpected) : Prop :=
  ∃ before token after, tokens = before ++ token :: after ∧
    Viable (before.map Token.lexeme) ∧
    ¬ Viable ((before ++ [token]).map Token.lexeme) ∧
    fault.position = token.position ∧ fault.found.text = token.lexeme.text ∧
    (WantsOperand (before.map Token.lexeme) → fault.wanted.text = "a number, name or '('") ∧
    (¬ WantsOperand (before.map Token.lexeme) →
      fault.wanted.text = closingText (openBrackets (before.map Token.lexeme)).head?)

theorem Place.wantedAfter_text (stack : List Bracket) :
    (Place.wantedAfter stack).text = closingText stack.head? := by
  rcases stack with _ | ⟨_ | _, outer⟩ <;> rfl

/-- The text asks for an operand exactly at the places where a number may come. -/
theorem Place.wanted_text (place : Place) :
    ((∃ value next, place.step (.number value) = some next) →
      place.wanted.text = "a number, name or '('") ∧
    (¬ (∃ value next, place.step (.number value) = some next) →
      place.wanted.text = closingText place.stack.head?) := by
  cases place with
  | operand stack => exact ⟨fun _ ↦ rfl, fun h ↦ absurd ⟨.zero, _, rfl⟩ h⟩
  | argument stack => exact ⟨fun _ ↦ rfl, fun h ↦ absurd ⟨.zero, _, rfl⟩ h⟩
  | name stack =>
    refine ⟨?_, fun _ ↦ Place.wantedAfter_text stack⟩
    rintro ⟨value, next, h⟩
    simp [Place.step, Place.goOn] at h
  | done stack =>
    refine ⟨?_, fun _ ↦ Place.wantedAfter_text stack⟩
    rintro ⟨value, next, h⟩
    simp [Place.step, Place.goOn] at h
  | finished =>
    refine ⟨?_, fun _ ↦ rfl⟩
    rintro ⟨value, next, h⟩
    simp [Place.step] at h

theorem Blames.first_impossible {first : Token} {rest : List Token} {fault : Unexpected}
    (h : Blames (.operand []) ⟨first, rest, 0⟩ fault) (hends : (Cursor.mk first rest 0).Ends) :
    BlamesFirstImpossible (first :: rest) fault := by
  obtain ⟨u, c, place, hpath, hrun, hstep, rfl⟩ := h
  obtain ⟨hlexemes, hdrop, -⟩ := hpath.tokens hends
  have hsplit : first :: rest = (first :: rest).take u.length ++ c.current :: c.ahead := by
    have hdrop' : c.current :: c.ahead = (first :: rest).drop u.length := hdrop
    rw [hdrop', List.take_append_drop]
  have hbefore : ((first :: rest).take u.length).map Token.lexeme = u := by
    have hmap : (first :: rest).map Token.lexeme = u ++ c.tokens.map Token.lexeme := hlexemes
    rw [List.map_take, hmap, List.take_left]
  refine ⟨(first :: rest).take u.length, c.current, c.ahead, hsplit, ?_, ?_, rfl, rfl, ?_⟩
  · rw [hbefore]
    exact (viable_iff_run u).mpr ⟨place, hrun⟩
  · rw [List.map_append, hbefore, List.map_singleton, viable_append_singleton_iff hrun, hstep]
    nofun
  · have hwants : WantsOperand u ↔ ∃ value next, place.step (.number value) = some next :=
      exists_congr fun value ↦ viable_append_singleton_iff hrun (.number value)
    have hstack : place.stack = openBrackets u := Place.stack_eq_bracketsAfter hrun
    rw [hbefore, hwants, ← hstack]
    exact place.wanted_text

/-- A fault of the grammar blames the first impossible token, and whatever is not a sentence gets
one. -/
theorem grammar_fault_blames_first_impossible {tokens : List Token} {lexemes : List Lexeme}
    {limit : Nat} (hwrites : Writes tokens lexemes) (hlimit : tokens.length ≤ limit) :
    (∀ fault, Expr.ofTokens tokens limit = .error (.grammar fault) →
      BlamesFirstImpossible tokens fault) ∧
    (¬ Sentence (tokens.map Token.lexeme) →
      ∃ fault, Expr.ofTokens tokens limit = .error (.grammar fault) ∧
        BlamesFirstImpossible tokens fault) := by
  obtain ⟨first, rest, rfl⟩ := hwrites.exists_cons
  constructor
  · intro fault hfault
    rcases ofTokens_eq_error hwrites hfault with ⟨unexpected, hsame, hblame⟩ | ⟨hdeep, -⟩
    · cases hsame
      exact hblame.first_impossible hwrites.ends
    · cases hdeep
  · intro hsentence
    rcases ofTokens_outcome hwrites limit with
      ⟨expr, -, sum, hsum, -⟩ | ⟨fault, hfault, hblame⟩ | ⟨-, hdeep⟩
    · refine absurd ⟨sum, ?_⟩ hsentence
      rw [hwrites.1, hsum]
    · exact ⟨fault, hfault, hblame.first_impossible hwrites.ends⟩
    · omega

/-- The tokens of `f(x,)`. -/
def lackingArgumentTokens : List Token :=
  [⟨.name "f", 0⟩, ⟨.opening, 1⟩, ⟨.name "x", 2⟩, ⟨.comma, 3⟩, ⟨.closing, 4⟩, ⟨.finish, 5⟩]

theorem lackingArgumentTokens_blames_closing :
    Writes lackingArgumentTokens [.name "f", .opening, .name "x", .comma, .closing] ∧
      lackingArgumentTokens.length ≤ 6 ∧
      Expr.ofTokens lackingArgumentTokens 6 = .error (.grammar ⟨4, .operand, .closing⟩) ∧
      BlamesFirstImpossible lackingArgumentTokens ⟨4, .operand, .closing⟩ := by
  have hwrites : Writes lackingArgumentTokens
      [.name "f", .opening, .name "x", .comma, .closing] := by
    constructor <;> decide
  have hfault : Expr.ofTokens lackingArgumentTokens 6 =
      .error (.grammar ⟨4, .operand, .closing⟩) := rfl
  exact ⟨hwrites, by decide, hfault,
    (grammar_fault_blames_first_impossible hwrites (by decide)).1 _ hfault⟩

end Reckoner.Grammar
