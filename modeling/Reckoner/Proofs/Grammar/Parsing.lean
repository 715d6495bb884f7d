import Mathlib.Data.List.Basic
import Reckoner.Proofs.Grammar.Completeness

/-!
# The Parser and its Grammar

Tokens that end once, at their end, are accepted exactly if their lexemes derive from a sum, and
then the tree is the one expression that they derive.  With a limit of at least the number of
tokens, depth is never the reason for a refusal.
-/

namespace Reckoner.Grammar

open Cursor

variable {first : Token} {rest tokens : List Token} {lexemes : List Lexeme} {limit : Nat}

/-! ## Tokens with one end -/

theorem Writes.exists_cons (h : Writes tokens lexemes) : ∃ first rest, tokens = first :: rest := by
  apply List.exists_cons_of_ne_nil
  rintro rfl
  have hlength := congrArg List.length h.1
  simp at hlength

theorem Writes.exists_path (h : Writes (first :: rest) lexemes) :
    ∃ c, (Cursor.mk first rest 0).Path lexemes c ∧ c.current.lexeme = .finish :=
  Cursor.exists_path h.1 h.2

theorem Writes.ends (h : Writes (first :: rest) lexemes) : (Cursor.mk first rest 0).Ends := by
  have hend : .finish ∈ (first :: rest).map Token.lexeme := by
    rw [h.1]
    simp
  exact hend

/-- What was read before an end is all there is before the only end. -/
theorem Writes.eq_of_path {c : Cursor} {u : List Lexeme} (h : Writes (first :: rest) lexemes)
    (hpath : (Cursor.mk first rest 0).Path u c) (hfinish : c.current.lexeme = .finish) :
    u = lexemes := by
  have htokens : (first :: rest).map Token.lexeme = u ++ .finish :: c.ahead.map Token.lexeme := by
    rw [← hfinish]
    exact (hpath.tokens h.ends).1
  rw [h.1] at htokens
  exact ((List.append_cons_inj_of_notMem h.2 List.not_mem_nil).mp htokens).1.symm

/-! ## Parsing -/

/-- The parser gives the expression of a phrase, or blames a token, or has too few levels. -/
theorem ofTokens_outcome (h : Writes (first :: rest) lexemes) (limit : Nat) :
    (∃ expr, Expr.ofTokens (first :: rest) limit = .ok expr ∧ Derives lexemes expr) ∨
    (∃ fault, Expr.ofTokens (first :: rest) limit = .error (.grammar fault) ∧
      Blames (.operand []) ⟨first, rest, 0⟩ fault) ∨
    (Expr.ofTokens (first :: rest) limit = .error (.tooDeep limit) ∧
      limit < (first :: rest).length) := by
  have hsum := sum_outcome (Nat.le_refl limit) (negation_outcome (Nat.le_refl limit))
    ⟨first, rest, 0⟩
  rw [Expr.ofTokens, Reading.whole]
  generalize Reading.sum limit (Reading.negation limit limit) ⟨first, rest, 0⟩ = result at hsum
  cases hsum with
  | @ok u node c hpath hread =>
    by_cases hfinish : c.current.lexeme = .finish
    · refine .inl ⟨node.expr, ?_, ?_⟩
      · change (if c.current.lexeme = .finish then _ else _) >>= _ = _
        rw [if_pos hfinish]
        rfl
      · rw [← h.eq_of_path hpath hfinish]
        exact hread.phrase
    · refine .inr (.inl ⟨⟨c.current.position, .expressionEnd, c.current.lexeme⟩, ?_, ?_⟩)
      · change (if c.current.lexeme = .finish then _ else _) >>= _ = _
        rw [if_neg hfinish]
        rfl
      · obtain ⟨place, hrun, hagree⟩ := hread.settled []
        have hstep : (Place.done []).step c.current.lexeme = none := by
          have hstops := hread.stops
          generalize c.current.lexeme = next at hstops hfinish
          cases next <;> first | rfl | exact absurd rfl hfinish | cases hstops
        have hblame := blames_here hstep
        exact (hblame.congr hagree).after hpath hrun
  | blame hblame => exact .inr (.inl ⟨_, rfl, hblame []⟩)
  | deep hdeep => exact .inr (.inr ⟨rfl, hdeep h.ends⟩)

theorem ofTokens_eq_error {fault : Fault} (h : Writes (first :: rest) lexemes)
    (herror : Expr.ofTokens (first :: rest) limit = .error fault) :
    (∃ unexpected, fault = .grammar unexpected ∧
      Blames (.operand []) ⟨first, rest, 0⟩ unexpected) ∨
    (fault = .tooDeep limit ∧ limit < (first :: rest).length) := by
  rcases ofTokens_outcome h limit with
    ⟨expr, hexpr, -⟩ | ⟨unexpected, hunexpected, hblame⟩ | ⟨hdeep, hlength⟩
  · rw [herror] at hexpr
    cases hexpr
  · rw [herror] at hunexpected
    cases hunexpected
    exact .inl ⟨unexpected, rfl, hblame⟩
  · rw [herror] at hdeep
    cases hdeep
    exact .inr ⟨rfl, hlength⟩

/-- A sum is read as its expression if the limit covers its nesting and its height, and is refused
as too deep otherwise. -/
theorem ofTokens_guarded (sum : Sum) (h : Writes (first :: rest) sum.lexemes) (limit : Nat) :
    Guarded limit (Fits limit limit sum.nesting sum.expr) (.ok sum.expr)
      (Expr.ofTokens (first :: rest) limit) := by
  obtain ⟨c, hpath, hfinish⟩ := h.exists_path
  have hends : EndsSum c.current.lexeme := hfinish ▸ endsSum_finish
  have hread := (sum.chainedTo hpath hends.toEndsProduct (Nat.le_refl limit)).stop hends.sum
  have hwhole : Guarded limit (Fits limit limit sum.nesting sum.expr) (.ok (nodeOf sum.expr, c))
      (Reading.whole limit ⟨first, rest, 0⟩) := by
    rw [Reading.whole, Reading.sum]
    refine hread.bind (fun hfit ↦ ?_) and_self_iff.symm
    dsimp only
    rw [if_pos hfinish]
    exact guarded_refl hfit _
  rw [Expr.ofTokens]
  exact hwhole.bind (fun hfit ↦ guarded_refl hfit _) and_self_iff.symm

theorem derives_of_ofTokens {expr : Expr} (h : Writes tokens lexemes)
    (hok : Expr.ofTokens tokens limit = .ok expr) : Derives lexemes expr := by
  obtain ⟨first, rest, rfl⟩ := h.exists_cons
  rcases ofTokens_outcome h limit with
    ⟨expr', hexpr, hderives⟩ | ⟨fault, hfault, -⟩ | ⟨hdeep, -⟩
  · rw [hok] at hexpr
    cases hexpr
    exact hderives
  · rw [hok] at hfault
    cases hfault
  · rw [hok] at hdeep
    cases hdeep

theorem Derives.ofTokens {expr : Expr} (h : Derives lexemes expr) (hwrites : Writes tokens lexemes)
    (hlimit : tokens.length ≤ limit) : Expr.ofTokens tokens limit = .ok expr := by
  obtain ⟨sum, rfl, rfl⟩ := h
  obtain ⟨first, rest, rfl⟩ := hwrites.exists_cons
  have hbounded := sum.bounded
  have hlength := congrArg List.length hwrites.1
  rw [List.length_map, List.length_append, List.length_singleton] at hlength
  exact (ofTokens_guarded sum hwrites limit).fit (by omega)

/-- The parser accepts exactly the lexemes that derive from a sum, with the expression that they
derive, and they derive one only. -/
theorem ofTokens_eq_ok_iff_derives (hwrites : Writes tokens lexemes)
    (hlimit : tokens.length ≤ limit) :
    (∀ expr, Expr.ofTokens tokens limit = .ok expr ↔ Derives lexemes expr) ∧
      ∀ expr expr', Derives lexemes expr → Derives lexemes expr' → expr = expr' := by
  constructor
  · intro expr
    constructor
    · exact derives_of_ofTokens hwrites
    · intro h
      exact h.ofTokens hwrites hlimit
  · intro expr expr' h h'
    have hok := h.ofTokens hwrites hlimit
    rw [h'.ofTokens hwrites hlimit] at hok
    cases hok
    rfl

/-- The tokens of `-x^-f(y,(z))*w`. -/
def minusPowerTokens : List Token :=
  [⟨.minus, 0⟩, ⟨.name "x", 1⟩, ⟨.caret, 2⟩, ⟨.minus, 3⟩, ⟨.name "f", 4⟩, ⟨.opening, 5⟩,
    ⟨.name "y", 6⟩, ⟨.comma, 7⟩, ⟨.opening, 8⟩, ⟨.name "z", 9⟩, ⟨.closing, 10⟩, ⟨.closing, 11⟩,
    ⟨.star, 12⟩, ⟨.name "w", 13⟩, ⟨.finish, 14⟩]

def minusPowerLexemes : List Lexeme :=
  [.minus, .name "x", .caret, .minus, .name "f", .opening, .name "y", .comma, .opening, .name "z",
    .closing, .closing, .star, .name "w"]

def minusPowerExpr : Expr :=
  .binary .mul
    (.neg (.binary .pow (.name "x") (.neg (.call "f" [.name "y", .name "z"])))) (.name "w")

theorem ofTokens_minusPowerTokens :
    Writes minusPowerTokens minusPowerLexemes ∧ minusPowerTokens.length ≤ 15 ∧
      Expr.ofTokens minusPowerTokens 15 = .ok minusPowerExpr ∧
      Derives minusPowerLexemes minusPowerExpr := by
  have hwrites : Writes minusPowerTokens minusPowerLexemes := by
    constructor <;> decide
  have hok : Expr.ofTokens minusPowerTokens 15 = .ok minusPowerExpr := rfl
  exact ⟨hwrites, by decide, hok, ((ofTokens_eq_ok_iff_derives hwrites (by decide)).1 _).mp hok⟩

end Reckoner.Grammar
