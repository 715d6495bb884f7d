import Reckoner.Proofs.Grammar.Phrase

/-!
# Places in an Expression

What may come next depends on two things: whether an operand is wanted or was just completed, and
which brackets are open.  A `Place` is both of them, and `Place.step` is the place after one more
lexeme, if the lexeme is possible there.  The lexemes before a place can always be completed, so a
run that gets stuck gets stuck at the first impossible lexeme.

Every phrase leads from a place where an operand is wanted to one where it is complete, under the
same brackets.
-/

namespace Reckoner.Grammar

/-- A bracket that is open. -/
inductive Bracket where
  /-- A bracket around a sum. -/
  | group
  /-- The bracket around the arguments of a call. -/
  | call
deriving DecidableEq

/-- A place between two lexemes, with the brackets that are open there, innermost first. -/
inductive Place where
  /-- An operand is wanted. -/
  | operand (stack : List Bracket)
  /-- Just inside the bracket of a call, which is not on the stack yet: an operand is wanted, or
  the end of the call. -/
  | argument (stack : List Bracket)
  /-- After a name, where a call may still open. -/
  | name (stack : List Bracket)
  /-- After any other operand. -/
  | done (stack : List Bracket)
  /-- After the end. -/
  | finished
deriving DecidableEq

namespace Place

/-! ## Steps -/

def beginOperand (stack : List Bracket) : Lexeme → Option Place
  | .number _ => some (.done stack)
  | .name _ => some (.name stack)
  | .minus => some (.operand stack)
  | .opening => some (.operand (.group :: stack))
  | _ => none

/-- The place after a lexeme that follows an operand and opens no call. -/
def goOn (stack : List Bracket) : Lexeme → Option Place
  | .plus | .minus | .star | .slash | .caret => some (.operand stack)
  | .closing =>
    match stack with
    | _ :: outer => some (.done outer)
    | [] => none
  | .comma =>
    match stack with
    | .call :: outer => some (.operand (.call :: outer))
    | _ => none
  | .finish => if stack = [] then some .finished else none
  | _ => none

def step : Place → Lexeme → Option Place
  | operand stack, lexeme => beginOperand stack lexeme
  | argument stack, lexeme =>
    if lexeme = .closing then some (.done stack) else beginOperand (.call :: stack) lexeme
  | name stack, lexeme =>
    if lexeme = .opening then some (.argument stack) else goOn stack lexeme
  | done stack, lexeme => goOn stack lexeme
  | finished, _ => none

def run (place : Place) : List Lexeme → Option Place
  | [] => some place
  | lexeme :: rest => (place.step lexeme).bind fun next ↦ next.run rest

@[simp]
theorem run_nil (place : Place) : place.run [] = some place := rfl

theorem run_cons (place : Place) (lexeme : Lexeme) (rest : List Lexeme) :
    place.run (lexeme :: rest) = (place.step lexeme).bind fun next ↦ next.run rest := rfl

theorem run_append (place : Place) (u v : List Lexeme) :
    place.run (u ++ v) = (place.run u).bind fun next ↦ next.run v := by
  induction u generalizing place with
  | nil => rfl
  | cons lexeme u ih =>
    rw [List.cons_append, run_cons, run_cons, Option.bind_assoc]
    simp only [ih]

/-- The open brackets, innermost first. -/
def stack : Place → List Bracket
  | operand stack => stack
  | argument stack => .call :: stack
  | name stack => stack
  | done stack => stack
  | finished => []

/-- What is asked for after an operand under these brackets. -/
def wantedAfter : List Bracket → Wanted
  | [] => .expressionEnd
  | .group :: _ => .groupEnd
  | .call :: _ => .argumentEnd

/-- What is asked for at the place. -/
def wanted : Place → Wanted
  | operand _ => .operand
  | argument _ => .operand
  | name stack => wantedAfter stack
  | done stack => wantedAfter stack
  | finished => .expressionEnd

/-! ## Places that a lexeme does not tell apart -/

/-- The lexeme leads to the same place from both, and the same is asked for at both. -/
def AgreesAt (lexeme : Lexeme) (p q : Place) : Prop :=
  p.step lexeme = q.step lexeme ∧ p.wanted = q.wanted

theorem argument_agreesAt {lexeme : Lexeme} (h : lexeme ≠ .closing) (stack : List Bracket) :
    AgreesAt lexeme (.argument stack) (.operand (.call :: stack)) :=
  ⟨if_neg h, rfl⟩

theorem name_agreesAt {lexeme : Lexeme} (h : lexeme ≠ .opening) (stack : List Bracket) :
    AgreesAt lexeme (.name stack) (.done stack) :=
  ⟨if_neg h, rfl⟩

/-- The lexemes are an operand or a larger phrase, and the next lexeme does not open a call after
it. -/
def Settled (lexemes : List Lexeme) (next : Lexeme) : Prop :=
  ∀ stack, ∃ place, (operand stack).run lexemes = some place ∧
    AgreesAt next place (.done stack)

theorem Settled.run_append {u : List Lexeme} {next : Lexeme} (h : Settled u next)
    (stack : List Bracket) (v : List Lexeme) :
    (operand stack).run (u ++ next :: v) = (done stack).run (next :: v) := by
  obtain ⟨place, hrun, hagree⟩ := h stack
  rw [Place.run_append, hrun, Option.bind_some, run_cons, run_cons, hagree.1]

def isOperator : Lexeme → Bool
  | .plus | .minus | .star | .slash | .caret => true
  | _ => false

theorem done_step_operator {mark : Lexeme} (h : isOperator mark) (stack : List Bracket) :
    (done stack).step mark = some (.operand stack) := by
  cases mark <;> first | rfl | cases h

/-- Two phrases with the mark of an operation between them. -/
theorem Settled.binary {u v : List Lexeme} {mark next : Lexeme} (hu : Settled u mark)
    (hmark : isOperator mark) (hv : Settled v next) : Settled (u ++ mark :: v) next := by
  intro stack
  obtain ⟨place, hrun, hagree⟩ := hv stack
  refine ⟨place, ?_, hagree⟩
  rw [hu.run_append, run_cons, done_step_operator hmark, Option.bind_some, hrun]

/-- A phrase after a minus. -/
theorem Settled.minus {u : List Lexeme} {next : Lexeme} (hu : Settled u next) :
    Settled (.minus :: u) next :=
  fun stack ↦ hu stack

/-- A phrase in brackets. -/
theorem Settled.group {u : List Lexeme} (hu : Settled u .closing) (next : Lexeme) :
    Settled (.opening :: (u ++ [.closing])) next := by
  intro stack
  refine ⟨.done stack, ?_, rfl, rfl⟩
  have hbegin : (operand stack).run (.opening :: (u ++ [.closing])) =
      (operand (.group :: stack)).run (u ++ [.closing]) := rfl
  rw [hbegin, hu.run_append]
  rfl

/-- The lexemes are arguments, and the next lexeme does not open a call after them. -/
def SettledInCall (lexemes : List Lexeme) (next : Lexeme) : Prop :=
  ∀ stack, ∃ place, (operand (.call :: stack)).run lexemes = some place ∧
    AgreesAt next place (.done (.call :: stack))

theorem Settled.inCall {u : List Lexeme} {next : Lexeme} (hu : Settled u next) :
    SettledInCall u next :=
  fun stack ↦ hu (.call :: stack)

/-- A phrase before more arguments. -/
theorem SettledInCall.more {u v : List Lexeme} {next : Lexeme} (hu : Settled u .comma)
    (hv : SettledInCall v next) : SettledInCall (u ++ .comma :: v) next := by
  intro stack
  obtain ⟨place, hrun, hagree⟩ := hv stack
  refine ⟨place, ?_, hagree⟩
  rw [hu.run_append, run_cons]
  exact hrun

/-- Just inside a call, whole arguments lead where they lead from any place for an operand. -/
theorem argument_run {u : List Lexeme} {stack : List Bracket} {place : Place}
    (hrun : (operand (.call :: stack)).run u = some place) (hwanted : place.wanted ≠ .operand) :
    (argument stack).run u = some place := by
  cases u with
  | nil =>
    cases hrun
    exact absurd rfl hwanted
  | cons lexeme u =>
    have hne : lexeme ≠ .closing := by
      rintro rfl
      cases hrun
    rw [run_cons, (argument_agreesAt hne stack).1]
    exact hrun

/-- Arguments in the brackets of a call. -/
theorem SettledInCall.call {u : List Lexeme} (hu : SettledInCall u .closing) (function : String)
    (next : Lexeme) : Settled (.name function :: .opening :: (u ++ [.closing])) next := by
  intro stack
  obtain ⟨place, hrun, hstep, hwanted⟩ := hu stack
  have hplace : place.wanted ≠ .operand := by
    rw [hwanted]
    simp [wanted, wantedAfter]
  have hbegin : (operand stack).run (.name function :: .opening :: (u ++ [.closing])) =
      (argument stack).run (u ++ [.closing]) := rfl
  refine ⟨.done stack, ?_, rfl, rfl⟩
  rw [hbegin, Place.run_append, argument_run hrun hplace, Option.bind_some, run_cons, hstep]
  rfl

/-! ## Completion -/

/-- The fewest lexemes that close the brackets and end the input. -/
def closers (stack : List Bracket) : List Lexeme :=
  List.replicate stack.length .closing ++ [.finish]

theorem run_closers (stack : List Bracket) :
    (done stack).run (closers stack) = some .finished := by
  induction stack with
  | nil => rfl
  | cons bracket stack ih =>
    have hstep : (done (bracket :: stack)).run (closers (bracket :: stack)) =
        (done stack).run (closers stack) := rfl
    rw [hstep, ih]

/-- From every place but the last, the input can be ended. -/
theorem exists_run_finished {place : Place} (h : place ≠ .finished) :
    ∃ lexemes, place.run lexemes = some .finished := by
  cases place with
  | operand stack => exact ⟨.number .zero :: closers stack, run_closers stack⟩
  | argument stack => exact ⟨.closing :: closers stack, run_closers stack⟩
  | name stack =>
    refine ⟨closers stack, ?_⟩
    have hrun := run_closers stack
    cases stack <;> exact hrun
  | done stack => exact ⟨closers stack, run_closers stack⟩
  | finished => exact absurd rfl h

theorem goOn_eq_finished {stack : List Bracket} {lexeme : Lexeme}
    (h : goOn stack lexeme = some .finished) : lexeme = .finish := by
  unfold goOn at h
  split at h <;> first | rfl | (split at h <;> cases h) | cases h

/-- Only the end finishes an input. -/
theorem step_eq_finished {place : Place} {lexeme : Lexeme}
    (h : place.step lexeme = some .finished) : lexeme = .finish := by
  cases place with
  | operand stack => cases lexeme <;> cases h
  | argument stack => cases lexeme <;> cases h
  | name stack =>
    rw [step] at h
    split at h
    · cases h
    · exact goOn_eq_finished h
  | done stack => exact goOn_eq_finished h
  | finished => cases h

end Place

/-! ## Phrases -/

mutual

/-- A sum is settled before everything but an opening bracket. -/
theorem Sum.settled {next : Lexeme} (h : next ≠ .opening) : ∀ sum : Sum,
    Place.Settled sum.lexemes next
  | .single term => by
    rw [Sum.lexemes]
    exact term.settled h
  | .more left mark right => by
    have hmark : mark.lexeme ≠ .opening ∧ Place.isOperator mark.lexeme := by
      cases mark <;> decide
    rw [Sum.lexemes]
    exact (left.settled hmark.1).binary hmark.2 (right.settled h)

theorem Product.settled {next : Lexeme} (h : next ≠ .opening) : ∀ product : Product,
    Place.Settled product.lexemes next
  | .single factor => by
    rw [Product.lexemes]
    exact factor.settled h
  | .more left mark right => by
    have hmark : mark.lexeme ≠ .opening ∧ Place.isOperator mark.lexeme := by
      cases mark <;> decide
    rw [Product.lexemes]
    exact (left.settled hmark.1).binary hmark.2 (right.settled h)

theorem Negation.settled {next : Lexeme} (h : next ≠ .opening) : ∀ negation : Negation,
    Place.Settled negation.lexemes next
  | .plain power => by
    rw [Negation.lexemes]
    exact power.settled h
  | .minus operand => by
    rw [Negation.lexemes]
    exact (operand.settled h).minus

theorem Power.settled {next : Lexeme} (h : next ≠ .opening) : ∀ power : Power,
    Place.Settled power.lexemes next
  | .plain base => by
    rw [Power.lexemes]
    exact base.settled h
  | .raised base exponent => by
    rw [Power.lexemes]
    exact (base.settled (by decide)).binary rfl (exponent.settled h)

theorem Operand.settled {next : Lexeme} (h : next ≠ .opening) : ∀ operand : Operand,
    Place.Settled operand.lexemes next
  | .number value => fun stack ↦ ⟨.done stack, rfl, rfl, rfl⟩
  | .name text => fun stack ↦ ⟨.name stack, rfl, Place.name_agreesAt h stack⟩
  | .bareCall function => fun stack ↦ ⟨.done stack, rfl, rfl, rfl⟩
  | .call function arguments => by
    rw [Operand.lexemes]
    exact (arguments.settled (by decide)).call function next
  | .group sum => by
    rw [Operand.lexemes]
    exact (sum.settled (by decide)).group next

theorem Arguments.settled {next : Lexeme} (h : next ≠ .opening) : ∀ arguments : Arguments,
    Place.SettledInCall arguments.lexemes next
  | .last sum => by
    rw [Arguments.lexemes]
    exact (sum.settled h).inCall
  | .more first rest => by
    rw [Arguments.lexemes]
    exact .more (first.settled (by decide)) (rest.settled h)

end

/-- A sentence runs to its end. -/
theorem Sentence.run {lexemes : List Lexeme} (h : Sentence lexemes) :
    (Place.operand []).run lexemes = some .finished := by
  obtain ⟨sum, rfl⟩ := h
  rw [(sum.settled (by decide : Lexeme.finish ≠ .opening)).run_append]
  rfl

end Reckoner.Grammar
