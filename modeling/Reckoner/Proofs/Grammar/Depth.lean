import Reckoner.Proofs.Grammar.Parsing

/-!
# The Limit on the Depth

A greater limit changes nothing but refusals because of the depth: what was read within the smaller
one, expression or fault, is read within the greater one too.  A sentence is refused exactly under
the limits that do not cover both the height of its tree and its nesting, which is one more than the
greatest number of brackets, calls, minuses and exponents around one of its numbers or names.
-/

namespace Reckoner.Grammar

open Cursor

/-! ## Greater limits -/

/-- The second attempt comes to what the first one does, unless that is a refusal because of the
depth. -/
def Keeps {α : Type} (attempt attempt' : Except Fault α) : Prop :=
  (∃ limit, attempt = .error (.tooDeep limit)) ∨ attempt' = attempt

section

variable {α β : Type} {attempt attempt' : Except Fault α}

theorem keeps_refl (attempt : Except Fault α) : Keeps attempt attempt := .inr rfl

theorem keeps_deep (limit : Nat) (attempt : Except Fault α) :
    Keeps (.error (.tooDeep limit)) attempt := .inl ⟨limit, rfl⟩

theorem Keeps.bind {next next' : α → Except Fault β} (h : Keeps attempt attempt')
    (hnext : ∀ a, Keeps (next a) (next' a)) : Keeps (attempt >>= next) (attempt' >>= next') := by
  rcases h with ⟨limit, rfl⟩ | rfl
  · exact keeps_deep limit _
  · cases attempt' with
    | ok a => exact hnext a
    | error fault => exact keeps_refl _

end

section

variable {limit limit' : Nat} (hlimit : limit ≤ limit')

include hlimit

theorem within_keeps (node : Node) : Keeps (node.within limit) (node.within limit') := by
  unfold Node.within
  split
  case isTrue => exact keeps_deep limit _
  case isFalse hheight =>
    rw [if_neg (by omega)]
    exact keeps_refl _

section

variable {operand operand' : Reading Node} (hoperand : ∀ c, Keeps (operand c) (operand' c))

include hoperand

theorem chain_keeps (operator? : Lexeme → Option Operator) (rounds : Nat) (left : Node)
    (c : Cursor) : Keeps (Reading.chain limit operator? operand rounds left c)
      (Reading.chain limit' operator? operand' rounds left c) := by
  induction rounds generalizing left c with
  | zero => exact keeps_refl _
  | succ rounds ih =>
    rw [Reading.chain, Reading.chain]
    cases operator? c.current.lexeme with
    | none => exact keeps_refl _
    | some operator =>
      apply (hoperand c.advance).bind
      rintro ⟨right, d⟩
      exact (within_keeps hlimit _).bind fun node ↦ ih node d

theorem chained_keeps (operator? : Lexeme → Option Operator) (c : Cursor) :
    Keeps (Reading.chained limit operator? operand c)
      (Reading.chained limit' operator? operand' c) := by
  apply (hoperand c).bind
  rintro ⟨first, d⟩
  exact chain_keeps hlimit hoperand operator? _ first d

end

section

variable {negation negation' : Reading Node} (hnegation : ∀ c, Keeps (negation c) (negation' c))

include hnegation

theorem sum_keeps (c : Cursor) :
    Keeps (Reading.sum limit negation c) (Reading.sum limit' negation' c) :=
  chained_keeps hlimit (chained_keeps hlimit hnegation Reading.productOperator?) _ c

theorem arguments_keeps (rounds : Nat) (c : Cursor) :
    Keeps (Reading.arguments (Reading.sum limit negation) rounds c)
      (Reading.arguments (Reading.sum limit' negation') rounds c) := by
  induction rounds generalizing c with
  | zero => exact keeps_refl _
  | succ rounds ih =>
    rw [Reading.arguments, Reading.arguments]
    apply (sum_keeps hlimit hnegation c).bind
    rintro ⟨first, d⟩
    dsimp only
    split
    case isTrue => exact (ih d.advance).bind fun _ ↦ keeps_refl _
    case isFalse => exact keeps_refl _

theorem call_keeps (function : String) (c : Cursor) :
    Keeps (Reading.call limit negation function c) (Reading.call limit' negation' function c) := by
  have hend : ∀ (nodes : List Node) (d : Cursor), Keeps
      (do
        let d ← d.passClosing .argumentEnd
        let node ← (Node.call function nodes).within limit
        .ok (node, d))
      (do
        let d ← d.passClosing .argumentEnd
        let node ← (Node.call function nodes).within limit'
        .ok (node, d)) := by
    intro nodes d
    apply (keeps_refl (d.passClosing .argumentEnd)).bind
    intro d'
    exact (within_keeps hlimit _).bind fun _ ↦ keeps_refl _
  unfold Reading.call
  split
  case isTrue => exact hend [] c
  case isFalse =>
    exact (arguments_keeps hlimit hnegation c.rounds c).bind fun (nodes, d) ↦ hend nodes d

theorem group_keeps (c : Cursor) :
    Keeps (Reading.group limit negation c) (Reading.group limit' negation' c) :=
  (sum_keeps hlimit hnegation c).bind fun _ ↦ keeps_refl _

theorem operand_keeps (c : Cursor) :
    Keeps (Reading.operand limit negation c) (Reading.operand limit' negation' c) := by
  unfold Reading.operand
  split
  case h_1 => exact keeps_refl _
  case h_2 text _ =>
    dsimp only
    split
    case isTrue => exact call_keeps hlimit hnegation text c.advance.advance
    case isFalse => exact keeps_refl _
  case h_3 => exact group_keeps hlimit hnegation c.advance
  case h_4 => exact keeps_refl _

theorem power_keeps (c : Cursor) :
    Keeps (Reading.power limit negation c) (Reading.power limit' negation' c) := by
  apply (operand_keeps hlimit hnegation c).bind
  rintro ⟨base, d⟩
  dsimp only
  split
  case isTrue =>
    apply (hnegation d.advance).bind
    rintro ⟨exponent, d'⟩
    exact (within_keeps hlimit _).bind fun _ ↦ keeps_refl _
  case isFalse => exact keeps_refl _

end

theorem negation_keeps {budget budget' : Nat} (hbudget : budget ≤ budget') (c : Cursor) :
    Keeps (Reading.negation limit budget c) (Reading.negation limit' budget' c) := by
  induction budget generalizing budget' c with
  | zero => exact keeps_deep limit _
  | succ budget ih =>
    obtain ⟨budget', rfl⟩ := Nat.exists_eq_add_of_lt hbudget
    have hbelow := fun c ↦ ih (Nat.le_add_right budget budget') c
    rw [Reading.negation, Reading.negation]
    split
    case isTrue =>
      apply (hbelow c.advance).bind
      rintro ⟨operand, d⟩
      exact (within_keeps hlimit _).bind fun _ ↦ keeps_refl _
    case isFalse => exact power_keeps hlimit hbelow c

/-- A greater limit changes nothing but refusals because of the depth. -/
theorem ofTokens_keeps (tokens : List Token) :
    Keeps (Expr.ofTokens tokens limit) (Expr.ofTokens tokens limit') := by
  cases tokens with
  | nil => exact keeps_refl _
  | cons first rest =>
    have hsum := sum_keeps hlimit (negation_keeps hlimit hlimit) ⟨first, rest, 0⟩
    exact (hsum.bind fun _ ↦ keeps_refl _).bind fun _ ↦ keeps_refl _

end

/-! ## Constructs around numbers and names -/

mutual

/-- For each number and each name of a sum, from left to right, how many brackets, calls, minuses
and exponents are around it, if there are `outer` around the sum. -/
def Sum.enclosures (outer : Nat) : Sum → List Nat
  | .single term => term.enclosures outer
  | .more left _ right => left.enclosures outer ++ right.enclosures outer

def Product.enclosures (outer : Nat) : Product → List Nat
  | .single factor => factor.enclosures outer
  | .more left _ right => left.enclosures outer ++ right.enclosures outer

def Negation.enclosures (outer : Nat) : Negation → List Nat
  | .plain power => power.enclosures outer
  | .minus operand => operand.enclosures (outer + 1)

def Power.enclosures (outer : Nat) : Power → List Nat
  | .plain base => base.enclosures outer
  | .raised base exponent => base.enclosures outer ++ exponent.enclosures (outer + 1)

def Operand.enclosures (outer : Nat) : Operand → List Nat
  | .number _ => [outer]
  | .name _ => [outer]
  | .bareCall _ => [outer]
  | .call _ arguments => outer :: arguments.enclosures (outer + 1)
  | .group sum => sum.enclosures (outer + 1)

def Arguments.enclosures (outer : Nat) : Arguments → List Nat
  | .last sum => sum.enclosures outer
  | .more first rest => first.enclosures outer ++ rest.enclosures outer

end

def greatest (numbers : List Nat) : Nat := numbers.foldr max 0

theorem greatest_cons (n : Nat) (numbers : List Nat) :
    greatest (n :: numbers) = max n (greatest numbers) := rfl

theorem greatest_singleton (n : Nat) : greatest [n] = n := Nat.max_zero n

theorem greatest_append (l r : List Nat) : greatest (l ++ r) = max (greatest l) (greatest r) := by
  induction l with
  | nil => exact (Nat.zero_max _).symm
  | cons n l ih => rw [List.cons_append, greatest_cons, greatest_cons, ih, Nat.max_assoc]

mutual

theorem Sum.greatest_enclosures (outer : Nat) : ∀ sum : Sum,
    greatest (sum.enclosures outer) + 1 = outer + sum.nesting
  | .single term => by
    rw [Sum.enclosures, Sum.nesting]
    exact term.greatest_enclosures outer
  | .more left mark right => by
    have hleft := left.greatest_enclosures outer
    have hright := right.greatest_enclosures outer
    rw [Sum.enclosures, Sum.nesting, greatest_append]
    omega

theorem Product.greatest_enclosures (outer : Nat) : ∀ product : Product,
    greatest (product.enclosures outer) + 1 = outer + product.nesting
  | .single factor => by
    rw [Product.enclosures, Product.nesting]
    exact factor.greatest_enclosures outer
  | .more left mark right => by
    have hleft := left.greatest_enclosures outer
    have hright := right.greatest_enclosures outer
    rw [Product.enclosures, Product.nesting, greatest_append]
    omega

theorem Negation.greatest_enclosures (outer : Nat) : ∀ negation : Negation,
    greatest (negation.enclosures outer) + 1 = outer + negation.nesting
  | .plain power => by
    have hpower := power.greatest_enclosures outer
    rw [Negation.enclosures, Negation.nesting]
    omega
  | .minus operand => by
    have hoperand := operand.greatest_enclosures (outer + 1)
    rw [Negation.enclosures, Negation.nesting]
    omega

theorem Power.greatest_enclosures (outer : Nat) : ∀ power : Power,
    greatest (power.enclosures outer) = outer + power.inner
  | .plain base => by
    rw [Power.enclosures, Power.inner]
    exact base.greatest_enclosures outer
  | .raised base exponent => by
    have hbase := base.greatest_enclosures outer
    have hexponent := exponent.greatest_enclosures (outer + 1)
    rw [Power.enclosures, Power.inner, greatest_append]
    omega

theorem Operand.greatest_enclosures (outer : Nat) : ∀ operand : Operand,
    greatest (operand.enclosures outer) = outer + operand.inner
  | .number _ => by rw [Operand.enclosures, Operand.inner, greatest_singleton, Nat.add_zero]
  | .name _ => by rw [Operand.enclosures, Operand.inner, greatest_singleton, Nat.add_zero]
  | .bareCall _ => by rw [Operand.enclosures, Operand.inner, greatest_singleton, Nat.add_zero]
  | .call _ arguments => by
    have harguments := arguments.greatest_enclosures (outer + 1)
    rw [Operand.enclosures, Operand.inner, greatest_cons]
    omega
  | .group sum => by
    have hsum := sum.greatest_enclosures (outer + 1)
    rw [Operand.enclosures, Operand.inner]
    omega

theorem Arguments.greatest_enclosures (outer : Nat) : ∀ arguments : Arguments,
    greatest (arguments.enclosures outer) + 1 = outer + arguments.nesting
  | .last sum => by
    rw [Arguments.enclosures, Arguments.nesting]
    exact sum.greatest_enclosures outer
  | .more first rest => by
    have hfirst := first.greatest_enclosures outer
    have hrest := rest.greatest_enclosures outer
    rw [Arguments.enclosures, Arguments.nesting, greatest_append]
    omega

end

/-! ## The least limit -/

/-- The tokens are refused because of the depth. -/
def RefusedForDepth (tokens : List Token) (limit : Nat) : Prop :=
  ∃ exceeded, Expr.ofTokens tokens limit = .error (.tooDeep exceeded)

/-- The limit on the depth never shows if it is at least the number of tokens, a greater limit
changes nothing but refusals because of the depth, and a sentence is refused, and then with the
limit, exactly if its nesting or the height of its tree exceeds it. -/
theorem ofTokens_depth_exact {tokens : List Token} {lexemes : List Lexeme}
    (hwrites : Writes tokens lexemes) :
    (∀ limit, tokens.length ≤ limit → ¬ RefusedForDepth tokens limit) ∧
    (∀ limit limit', limit ≤ limit' → ¬ RefusedForDepth tokens limit →
      Expr.ofTokens tokens limit' = Expr.ofTokens tokens limit) ∧
    ∀ sum : Sum, sum.lexemes = lexemes → ∀ limit,
      (Expr.ofTokens tokens limit = .ok sum.expr ↔
        1 + greatest (sum.enclosures 0) ≤ limit ∧ sum.expr.depth ≤ limit) ∧
      (¬ (1 + greatest (sum.enclosures 0) ≤ limit ∧ sum.expr.depth ≤ limit) →
        Expr.ofTokens tokens limit = .error (.tooDeep limit)) := by
  obtain ⟨first, rest, rfl⟩ := hwrites.exists_cons
  refine ⟨?_, ?_, ?_⟩
  · rintro limit hlimit ⟨exceeded, hdeep⟩
    rcases ofTokens_eq_error hwrites hdeep with ⟨unexpected, hgrammar, -⟩ | ⟨-, hlength⟩
    · cases hgrammar
    · omega
  · intro limit limit' hle hrefused
    exact (ofTokens_keeps hle (first :: rest)).resolve_left hrefused
  · rintro sum rfl limit
    have hguarded := ofTokens_guarded sum hwrites limit
    have hnesting : 1 + greatest (sum.enclosures 0) = sum.nesting := by
      have hgreatest := sum.greatest_enclosures 0
      omega
    rw [hnesting]
    refine ⟨⟨?_, hguarded.fit⟩, hguarded.deep⟩
    intro hok
    by_contra hnot
    rw [hguarded.deep hnot] at hok
    cases hok

/-- The tokens of `-f((x))`. -/
def enclosedNameTokens : List Token :=
  [⟨.minus, 0⟩, ⟨.name "f", 1⟩, ⟨.opening, 2⟩, ⟨.opening, 3⟩, ⟨.name "x", 4⟩, ⟨.closing, 5⟩,
    ⟨.closing, 6⟩, ⟨.finish, 7⟩]

def enclosedName : Sum :=
  .single (.single (.minus (.plain (.plain (.call "f"
    (.last (.single (.single (.plain (.plain (.group
      (.single (.single (.plain (.plain (.name "x"))))))))))))))))

/-- The tree of `-f((x))` has height three, but its `x` is enclosed three times. -/
theorem enclosedNameTokens_depth_exact :
    Writes enclosedNameTokens enclosedName.lexemes ∧ enclosedName.enclosures 0 = [1, 3] ∧
      enclosedName.expr.depth = 3 ∧
      Expr.ofTokens enclosedNameTokens 4 = .ok enclosedName.expr ∧
      Expr.ofTokens enclosedNameTokens 3 = .error (.tooDeep 3) := by
  have hwrites : Writes enclosedNameTokens enclosedName.lexemes := by
    constructor <;> decide
  have henclosures : enclosedName.enclosures 0 = [1, 3] := rfl
  have hdepth : enclosedName.expr.depth = 3 := rfl
  have hexact := (ofTokens_depth_exact hwrites).2.2 enclosedName rfl
  rw [henclosures, hdepth] at hexact
  exact ⟨hwrites, henclosures, hdepth, (hexact 4).1.mpr (by decide), (hexact 3).2 (by decide)⟩

end Reckoner.Grammar
