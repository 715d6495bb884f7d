import Reckoner.Proofs.Grammar.Following

/-!
# All Runs of the Parser

What can be said of every run, on any list of tokens and under any limit: it ends, by itself and
with what the parser gives, nothing after the first end counts, and one invariant holds at each
call, check and tree, also where a fault follows.
-/

namespace Reckoner

open Grammar

namespace Watched

variable {tokens tokens' : List Token} {limit patience : Nat}

theorem addsUpTo_unlimited (tokens : List Token) : AddsUpTo Checked.unlimited tokens :=
  fun _ _ _ ↦ rfl

/-- The patience that is enough depends on the number of the tokens and on the limit alone. -/
theorem ofTokens_unlimited (hsame : upToEnd tokens = upToEnd tokens')
    (hpatience : tokens.length + limit < patience) :
    ∃ events, ofTokens Checked.unlimited patience tokens' limit =
        .ok (Expr.ofTokens tokens limit, events) ∧ AllSound tokens' limit events :=
  ofTokens_eq (addsUpTo_unlimited tokens') hsame (by omega) (.inl (by omega))

end Watched

/-- On every list of tokens and under every limit, the watched parser ends by itself and gives what
the parser gives: no loop and no recursion goes on for longer than there are tokens and negations
that the limit admits.  A list without an end is refused, and of a list with ends nothing counts but
what comes up to the first. -/
theorem ofTokens_ends (tokens : List Token) (limit : Nat) :
    (∀ patience, tokens.length + limit < patience →
      ∃ events, Watched.ofTokens Checked.unlimited patience tokens limit =
        .ok (Expr.ofTokens tokens limit, events)) ∧
    (.finish ∉ tokens.map Token.lexeme → ∃ fault, Expr.ofTokens tokens limit = .error fault) ∧
    ∀ k, tokens.findIdx? (fun token ↦ token.lexeme = .finish) = some k →
      Expr.ofTokens tokens limit = Expr.ofTokens (tokens.take (k + 1)) limit := by
  refine ⟨?_, ?_, ?_⟩
  · intro patience hpatience
    obtain ⟨events, hrun, -⟩ := Watched.ofTokens_unlimited rfl hpatience
    exact ⟨events, hrun⟩
  · intro hfinish
    cases hresult : Expr.ofTokens tokens limit with
    | error fault => exact ⟨fault, rfl⟩
    | ok expr => exact absurd (finish_mem_of_ofTokens hresult) hfinish
  · intro k hk
    have hlength := List.length_take_le' (k + 1) tokens
    obtain ⟨events, hwhole, -⟩ := Watched.ofTokens_unlimited (rfl : upToEnd tokens = _)
      (Nat.lt_succ_self (tokens.length + limit))
    obtain ⟨events', hcut, -⟩ := Watched.ofTokens_unlimited (take_eq_upToEnd hk)
      (by omega : (tokens.take (k + 1)).length + limit < (tokens.length + limit).succ)
    rw [hwhole] at hcut
    exact (Prod.mk.inj (Except.ok.inj hcut)).1

/-- A call whose tokens stop at its opening bracket, which is never left behind. -/
def callWithoutEnd : List Token := [⟨.name "f", 7⟩, ⟨.opening, 0⟩]

/-- A number with more tokens after its end. -/
def numberBeforeMore : List Token :=
  [⟨.number .zero, 1⟩, ⟨.finish, 0⟩, ⟨.closing, 2⟩, ⟨.finish, 4⟩]

theorem callWithoutEnd_ofTokens_ends :
    .finish ∉ callWithoutEnd.map Token.lexeme ∧
      (∃ fault, Expr.ofTokens callWithoutEnd 3 = .error fault) ∧
      (∃ events, Watched.ofTokens Checked.unlimited 6 callWithoutEnd 3 =
        .ok (.error (.tooDeep 3), events)) ∧
      numberBeforeMore.findIdx? (fun token ↦ token.lexeme = .finish) = some 1 ∧
      Expr.ofTokens numberBeforeMore 1 = Expr.ofTokens [⟨.number .zero, 1⟩, ⟨.finish, 0⟩] 1 := by
  have hfinish : .finish ∉ callWithoutEnd.map Token.lexeme := by decide
  have hindex : numberBeforeMore.findIdx? (fun token ↦ token.lexeme = .finish) = some 1 := by
    decide
  obtain ⟨hcall, herror, -⟩ := ofTokens_ends callWithoutEnd 3
  obtain ⟨-, -, hcut⟩ := ofTokens_ends numberBeforeMore 1
  exact ⟨hfinish, herror hfinish, hcall 6 (by decide), hindex, hcut 1 hindex⟩

/-- On every list of tokens and under every limit, the watched parser comes to what the parser comes
to.  Whatever happens on the way, also where a fault follows: no call is made with more negations
open than tokens have been taken, but for one, or than the limit admits; each negation that passes
its check is within the limit; each tree that is made has the height that was counted for it, and
this is within the limit; and what a call gives back has taken a token for each of its levels, none
of them an end, and leaves no more negations open than there were.  An expression that is found has
been given back by the first call of all. -/
theorem parsing_keeps_invariant (tokens : List Token) (limit : Nat) {patience : Nat}
    (hpatience : tokens.length + limit < patience) :
    ∃ events, Watched.ofTokens Checked.unlimited patience tokens limit =
        .ok (Expr.ofTokens tokens limit, events) ∧
      (∀ event ∈ events, event.Sound tokens limit) ∧
      ∀ expr, Expr.ofTokens tokens limit = .ok expr →
        ∃ exit height, .returned .sum ⟨0, 0⟩ exit ⟨expr, height⟩ ∈ events := by
  obtain ⟨events, hrun, hevents⟩ := Watched.ofTokens_unlimited (rfl : upToEnd tokens = _) hpatience
  refine ⟨events, hrun, hevents, fun expr hexpr ↦ ?_⟩
  rw [hexpr] at hrun
  exact Watched.returned_mem_of_ofTokens hrun

/-- The tokens of `-f(x) ^ 0`. -/
def negatedPowerTokens : List Token :=
  [⟨.minus, 0⟩, ⟨.name "f", 1⟩, ⟨.opening, 2⟩, ⟨.name "x", 3⟩, ⟨.closing, 4⟩, ⟨.caret, 6⟩,
    ⟨.number .zero, 8⟩, ⟨.finish, 9⟩]

def negatedPower : Expr := .neg (.binary .pow (.call "f" [.name "x"]) (.number .zero))

/-- A minus without anything after it is seen again, and a second negation is one too many. -/
def minusWithoutEnd : List Token := [⟨.minus, 0⟩]

theorem negatedPower_keeps_invariant :
    negatedPowerTokens.length + 4 < 13 ∧
      (∃ events, Watched.ofTokens Checked.unlimited 13 negatedPowerTokens 4 =
          .ok (.ok negatedPower, events) ∧
        (∀ event ∈ events, event.Sound negatedPowerTokens 4) ∧
        ∃ exit height, .returned .sum ⟨0, 0⟩ exit ⟨negatedPower, height⟩ ∈ events) ∧
      minusWithoutEnd.length + 1 < 3 ∧
      ∃ events, Watched.ofTokens Checked.unlimited 3 minusWithoutEnd 1 =
          .ok (.error (.tooDeep 1), events) ∧
        ∀ event ∈ events, event.Sound minusWithoutEnd 1 := by
  have hpatience : negatedPowerTokens.length + 4 < 13 := by decide
  have hpatience' : minusWithoutEnd.length + 1 < 3 := by decide
  have hexpr : Expr.ofTokens negatedPowerTokens 4 = .ok negatedPower := rfl
  obtain ⟨events, hrun, hevents, hreturned⟩ :=
    parsing_keeps_invariant negatedPowerTokens 4 hpatience
  obtain ⟨events', hrun', hevents', -⟩ := parsing_keeps_invariant minusWithoutEnd 1 hpatience'
  exact ⟨hpatience, ⟨events, hrun, hevents, hreturned _ hexpr⟩, hpatience', events', hrun',
    hevents'⟩

example : (Watched.ofTokens Checked.unlimited 3 minusWithoutEnd 1).map Prod.snd =
    .ok [.called .negation ⟨1, 1⟩, .admitted ⟨0, 1⟩, .called .negation ⟨0, 0⟩,
      .called .product ⟨0, 0⟩, .called .sum ⟨0, 0⟩] := rfl

end Reckoner
