import Reckoner.Expr.OfTokens
import Reckoner.Proofs.Safety.Checked

/-!
# Parsing under Watch

The parser as it works on an array of tokens, with a position, a count of the negations that are
open, and a height that is counted for each tree instead of being measured on it.  All its steps are
checked: the tokens it looks at, the numbers it counts with by a given way to add them, and the
rounds of its loops and of its recursion, which nothing but its patience bounds.

Whatever happens is written down: each call of one of the five functions, each negation that passes
its check, each tree that is made, and each tree that a call gives back.  `Event.Sound` says what
should hold of it.
-/

namespace Reckoner

namespace Watched

/-! ## What is written down -/

/-- The functions of the parser. -/
inductive Level where
  | sum
  | product
  | negation
  | power
  | operand
deriving DecidableEq, Repr

/-- How far the parser is: how many tokens it has taken, and how many negations are open. -/
structure Stand where
  position : Nat
  depth : Nat
deriving DecidableEq, Repr

/-- A tree with the height that was counted for it. -/
structure Counted where
  expr : Expr
  height : Nat

inductive Event where
  /-- A function is called. -/
  | called (level : Level) (entry : Stand)
  /-- A negation, counted as open, has passed its check. -/
  | admitted (stand : Stand)
  /-- A tree is made. -/
  | made (tree : Counted)
  /-- A call gives back a tree. -/
  | returned (level : Level) (entry exit : Stand) (tree : Counted)

/-- How far the parser is, and what has happened up to there, the latest first. -/
structure State where
  stand : Stand
  events : List Event

/-! ## The parser -/

/-- A part of the parser.  It keeps the state also where it ends with a fault. -/
abbrev Parser (α : Type) := ExceptT Fault (StateT State Checked) α

/-- The loops of the parser. -/
inductive Chain where
  | sum
  | product

def Chain.operator? : Chain → Lexeme → Option Operator
  | sum => Reading.sumOperator?
  | product => Reading.productOperator?

def Chain.level : Chain → Level
  | sum => .sum
  | product => .product

section

variable {α : Type}

def step (x : Checked α) : Parser α := fun s ↦ x.map fun a ↦ (.ok a, s)

def record (event : Event) : Parser Unit :=
  modify fun s ↦ { s with events := event :: s.events }

/-- A call, with what it gives back if it does not fail. -/
def call (level : Level) (m : Parser Counted) : Parser Counted := do
  let entry := (← get).stand
  record (.called level entry)
  let tree ← m
  record (.returned level entry (← get).stand tree)
  pure tree

variable (add : Nat → Nat → Checked Nat) (patience : Nat) (tokens : List Token) (limit : Nat)

/-- The token at the position, or the last one. -/
def current : Parser Token := do
  let last ← step (Checked.sub tokens.length 1)
  let s ← get
  step (Checked.read tokens (min s.stand.position last))

def advance : Parser Unit := do
  let token ← current tokens
  if token.lexeme = .finish then pure ()
  else
    let s ← get
    let position ← step (add s.stand.position 1)
    set { s with stand.position := position }

def unexpected (wanted : Wanted) : Parser α := do
  let token ← current tokens
  throw (.grammar ⟨token.position, wanted, token.lexeme⟩)

def passClosing (wanted : Wanted) : Parser Unit := do
  let token ← current tokens
  if token.lexeme = .closing then advance add tokens else unexpected tokens wanted

def checkHeight (height : Nat) : Parser Unit :=
  if height > limit then throw (.tooDeep limit) else pure ()

def make (expr : Expr) (height : Nat) : Parser Counted := do
  record (.made ⟨expr, height⟩)
  pure ⟨expr, height⟩

/-- Makes a tree one higher than what is below it, if that is not too high. -/
def build (expr : Expr) (below : Nat) : Parser Counted := do
  let height ← step (add 1 below)
  checkHeight limit height
  make expr height

def binary (operator : Operator) (left right : Counted) : Parser Counted :=
  build add limit (.binary operator left.expr right.expr) (max left.height right.height)

/-- The rest of a chain of operations that group to the left, `left` being what was read so far. -/
def chain (kind : Chain) (link : Parser Counted) : (rounds : Nat) → (left : Counted) →
    Parser Counted
  | 0, _ => step (.error .endless)
  | rounds + 1, left => do
    let token ← current tokens
    match kind.operator? token.lexeme with
    | none => pure left
    | some operator => do
      advance add tokens
      let right ← link
      let left ← binary add limit operator left right
      chain kind link rounds left

def chained (kind : Chain) (link : Parser Counted) : Parser Counted := call kind.level do
  let first ← link
  chain add tokens limit kind link patience first

def sum (negation : Parser Counted) : Parser Counted :=
  chained add patience tokens limit .sum (chained add patience tokens limit .product negation)

/-- Further arguments with commas between them, and the greatest height among all. -/
def arguments (negation : Parser Counted) :
    (rounds : Nat) → (earlier : List Expr) → (height : Nat) → Parser (List Expr × Nat)
  | 0, _, _ => step (.error .endless)
  | rounds + 1, earlier, height => do
    let argument ← sum add patience tokens limit negation
    let token ← current tokens
    if token.lexeme = .comma then
      advance add tokens
      arguments negation rounds (earlier ++ [argument.expr]) (max height argument.height)
    else pure (earlier ++ [argument.expr], max height argument.height)

/-- The end of the call of a function with its arguments, of which the highest is that high. -/
def applicationEnd (function : String) (exprs : List Expr) (height : Nat) : Parser Counted := do
  passClosing add tokens .argumentEnd
  build add limit (.call function exprs) height

def application (negation : Parser Counted) (function : String) : Parser Counted := do
  let token ← current tokens
  if token.lexeme = .closing then applicationEnd add tokens limit function [] 0
  else
    let (exprs, height) ← arguments add patience tokens limit negation patience [] 0
    applicationEnd add tokens limit function exprs height

def group (negation : Parser Counted) : Parser Counted := do
  let inner ← sum add patience tokens limit negation
  passClosing add tokens .groupEnd
  pure inner

def operand (negation : Parser Counted) : Parser Counted := call .operand do
  let token ← current tokens
  match token.lexeme with
  | .number value => do
    advance add tokens
    make (.number value) 1
  | .name text => do
    advance add tokens
    let token ← current tokens
    if token.lexeme = .opening then
      advance add tokens
      application add patience tokens limit negation text
    else make (.name text) 1
  | .opening => do
    advance add tokens
    group add patience tokens limit negation
  | _ => unexpected tokens .operand

def power (negation : Parser Counted) : Parser Counted := call .power do
  let base ← operand add patience tokens limit negation
  let token ← current tokens
  if token.lexeme = .caret then
    advance add tokens
    let exponent ← negation
    binary add limit .pow base exponent
  else pure base

/-- A minus and a negation, or a power. -/
def signed (negation : Parser Counted) : Parser Counted := do
  let token ← current tokens
  if token.lexeme = .minus then
    advance add tokens
    let inner ← negation
    build add limit (.neg inner.expr) inner.height
  else power add patience tokens limit negation

/-- Counts a negation as open while it is read, also where that ends with a fault. -/
def counted (inner : Parser Counted) : Parser Counted := do
  let s ← get
  let depth ← step (add s.stand.depth 1)
  set { s with stand.depth := depth }
  checkHeight limit depth
  record (.admitted ⟨s.stand.position, depth⟩)
  let outcome ← ExceptT.lift inner.run
  let s ← get
  let depth ← step (Checked.sub s.stand.depth 1)
  set { s with stand.depth := depth }
  liftExcept outcome

def negation : (rounds : Nat) → Parser Counted
  | 0 => step (.error .endless)
  | rounds + 1 =>
    call .negation (counted add limit (signed add patience tokens limit (negation rounds)))

def whole : Parser Counted := do
  let tree ← sum add patience tokens limit (negation add patience tokens limit patience)
  let token ← current tokens
  if token.lexeme = .finish then pure tree else unexpected tokens .expressionEnd

/-- The expression that the tokens write, and all that happens until it is found or refused. -/
def ofTokens : Checked (Except Fault Expr × List Event) :=
  if tokens = [] then .ok (.error (.grammar ⟨0, .operand, .finish⟩), [])
  else do
    let (outcome, s) ← whole add patience tokens limit ⟨⟨0, 0⟩, []⟩
    .ok (outcome.map Counted.expr, s.events)

end

/-! ## What is sound -/

/-- The end of the tokens, or the first of several ends, has not been passed. -/
def NotPassed (tokens : List Token) (position : Nat) : Prop :=
  ∀ k, tokens.findIdx? (fun token ↦ token.lexeme = .finish) = some k → position ≤ k

/-- A tree with the height that was counted for it, which is not above the limit. -/
structure Counted.Sound (limit : Nat) (tree : Counted) : Prop where
  height_eq : tree.height = tree.expr.depth
  height_le : tree.height ≤ limit

/-- What holds between a call and what it gives back.  A token was taken for each level of the
tree. -/
structure Returned (tokens : List Token) (limit : Nat) (entry exit : Stand) (tree : Counted) :
    Prop where
  sound : tree.Sound limit
  depth_eq : exit.depth = entry.depth
  position_lt : entry.position < exit.position
  notPassed : NotPassed tokens exit.position
  height_le : tree.height ≤ exit.position - entry.position

def Event.Sound (tokens : List Token) (limit : Nat) : Event → Prop
  | .called _ entry => entry.depth ≤ entry.position + 1 ∧ entry.depth ≤ limit
  | .admitted stand => stand.depth ≤ stand.position + 1 ∧ stand.depth ≤ limit
  | .made tree => tree.Sound limit
  | .returned _ entry exit tree => Returned tokens limit entry exit tree

def AllSound (tokens : List Token) (limit : Nat) (events : List Event) : Prop :=
  ∀ event ∈ events, event.Sound tokens limit

theorem AllSound.cons {tokens : List Token} {limit : Nat} {event : Event} {events : List Event}
    (h : event.Sound tokens limit) (hevents : AllSound tokens limit events) :
    AllSound tokens limit (event :: events) :=
  List.forall_mem_cons.mpr ⟨h, hevents⟩

/-! ## Steps -/

section

variable {α β : Type} {add : Nat → Nat → Checked Nat} {patience limit : Nat} {tokens : List Token}
  {m : Parser α} {f : α → Parser β} {s s' : State}

theorem bind_of_ok {a : α} (h : m s = .ok (.ok a, s')) : (m >>= f) s = f a s' := by
  change (m s >>= _) = _
  rw [h]
  rfl

theorem bind_of_error {fault : Fault} (h : m s = .ok (.error fault, s')) :
    (m >>= f) s = .ok (.error fault, s') := by
  change (m s >>= _) = _
  rw [h]
  rfl

/-- What succeeds goes through a state in between. -/
theorem exists_of_bind_eq_ok {b : β} (h : (m >>= f) s = .ok (.ok b, s')) :
    ∃ a t, m s = .ok (.ok a, t) ∧ f a t = .ok (.ok b, s') := by
  cases hm : m s with
  | error breach =>
    change (m s >>= _) = _ at h
    rw [hm] at h
    cases h
  | ok pair =>
    obtain ⟨outcome, t⟩ := pair
    cases outcome with
    | error fault =>
      rw [bind_of_error hm] at h
      cases h
    | ok a =>
      rw [bind_of_ok hm] at h
      exact ⟨a, t, rfl, h⟩

theorem get_bind {f : State → Parser β} : (get >>= f) s = f s s := rfl

theorem set_bind {f : PUnit → Parser β} : (set s' >>= f) s = f ⟨⟩ s' := rfl

theorem record_bind {f : Unit → Parser β} (event : Event) :
    (record event >>= f) s = f () { s with events := event :: s.events } := rfl

theorem step_bind {x : Checked α} {a : α} (h : x = .ok a) : (step x >>= f) s = f a s :=
  bind_of_ok (by rw [step, h]; rfl)

theorem lift_run_bind {outcome : Except Fault α} {f : Except Fault α → Parser β}
    (h : m s = .ok (outcome, s')) : (ExceptT.lift m.run >>= f) s = f outcome s' := by
  refine bind_of_ok ?_
  change (m s >>= _) = _
  rw [h]
  rfl

theorem state_eq_of_step {x : Checked α} {a : α} (h : step x s = .ok (.ok a, s')) : s' = s := by
  obtain ⟨b, -, heq⟩ := map_eq_ok_iff.mp h
  exact (Prod.mk.inj heq).2.symm

theorem state_eq_of_current {token : Token} (h : current tokens s = .ok (.ok token, s')) :
    s' = s := by
  obtain ⟨last, t, hlast, hread⟩ := exists_of_bind_eq_ok h
  rw [get_bind] at hread
  rw [state_eq_of_step hread, state_eq_of_step hlast]

/-- Asking for something else never succeeds. -/
theorem unexpected_ne_ok {wanted : Wanted} {a : α} :
    (unexpected tokens wanted : Parser α) s ≠ .ok (.ok a, s') := by
  intro h
  obtain ⟨token, t, -, hthrow⟩ := exists_of_bind_eq_ok h
  cases hthrow

/-! ## What is written down last -/

/-- What a call gives back is written down. -/
theorem returned_mem_of_call {level : Level} {m : Parser Counted} {tree : Counted}
    (h : call level m s = .ok (.ok tree, s')) :
    .returned level s.stand s'.stand tree ∈ s'.events := by
  rw [call, get_bind, record_bind] at h
  obtain ⟨tree', t, -, h⟩ := exists_of_bind_eq_ok h
  cases h
  exact List.mem_cons_self

/-- Where an expression is found, the first call of all has given it back. -/
theorem returned_mem_of_ofTokens {expr : Expr} {events : List Event}
    (h : ofTokens add patience tokens limit = .ok (.ok expr, events)) :
    ∃ exit height, .returned .sum ⟨0, 0⟩ exit ⟨expr, height⟩ ∈ events := by
  rw [ofTokens] at h
  split at h
  case isTrue => cases h
  case isFalse =>
    obtain ⟨⟨outcome, t⟩, hwhole, heq⟩ := bind_eq_ok_iff.mp h
    cases outcome with
    | error fault => cases heq
    | ok tree =>
      cases heq
      obtain ⟨tree', t', hsum, hend⟩ := exists_of_bind_eq_ok hwhole
      obtain ⟨token, t'', htoken, hend⟩ := exists_of_bind_eq_ok hend
      have hreturned := returned_mem_of_call hsum
      rw [← state_eq_of_current htoken] at hreturned
      split at hend
      case isTrue =>
        cases hend
        exact ⟨_, _, hreturned⟩
      case isFalse => exact absurd hend unexpected_ne_ok

end

end Watched

end Reckoner
