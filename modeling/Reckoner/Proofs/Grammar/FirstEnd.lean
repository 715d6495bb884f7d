import Reckoner.Proofs.Attempt
import Reckoner.Proofs.Grammar.Parsing

/-!
# The First End

Lists of tokens with no end, with one, or with several.  What counts are the tokens up to the first
end: two places are the same if the same tokens are ahead of them up to there, and moving on keeps
them the same.  Where the tokens stop without an end, the last one is seen for ever, and nothing is
accepted.
-/

namespace Reckoner

open Grammar

/-! ## Tokens up to the end -/

/-- The tokens up to the first end, or all if there is none. -/
def upToEnd : List Token → List Token
  | [] => []
  | first :: rest => if first.lexeme = .finish then [first] else first :: upToEnd rest

theorem upToEnd_of_finish {first : Token} (h : first.lexeme = .finish) (rest : List Token) :
    upToEnd (first :: rest) = [first] := if_pos h

theorem upToEnd_of_ne {first : Token} (h : first.lexeme ≠ .finish) (rest : List Token) :
    upToEnd (first :: rest) = first :: upToEnd rest := if_neg h

theorem exists_upToEnd_cons (first : Token) (rest : List Token) :
    ∃ others, upToEnd (first :: rest) = first :: others := by
  rw [upToEnd]
  split
  · exact ⟨_, rfl⟩
  · exact ⟨_, rfl⟩

theorem upToEnd_eq_nil_iff {tokens : List Token} : upToEnd tokens = [] ↔ tokens = [] := by
  cases tokens with
  | nil => exact ⟨fun _ ↦ rfl, fun _ ↦ rfl⟩
  | cons first rest =>
    obtain ⟨others, hcons⟩ := exists_upToEnd_cons first rest
    rw [hcons]
    exact ⟨nofun, nofun⟩

theorem take_eq_upToEnd {tokens : List Token} {k : Nat}
    (h : tokens.findIdx? (fun token ↦ token.lexeme = .finish) = some k) :
    upToEnd (tokens.take (k + 1)) = upToEnd tokens := by
  induction tokens generalizing k with
  | nil => cases h
  | cons first rest ih =>
    rw [List.findIdx?_cons] at h
    rw [List.take_succ_cons]
    by_cases hfinish : first.lexeme = .finish
    · rw [upToEnd_of_finish hfinish, upToEnd_of_finish hfinish]
    · rw [if_neg (by simpa using hfinish)] at h
      obtain ⟨j, hj, rfl⟩ := Option.map_eq_some_iff.mp h
      rw [upToEnd_of_ne hfinish, upToEnd_of_ne hfinish, ih hj]

/-- Where nothing is ahead of a token that is not the end, it is seen again. -/
theorem Cursor.tokens_advance {c : Cursor} (h : c.current.lexeme ≠ .finish) :
    c.advance.tokens = if c.ahead = [] then c.tokens else c.ahead := by
  rw [Cursor.advance_eq h]
  split
  case h_1 hnil => rw [if_pos hnil]; rfl
  case h_2 next rest hcons => rw [if_neg (hcons ▸ List.cons_ne_nil _ _)]; exact hcons.symm

/-- The same tokens are ahead of both places, up to the first end. -/
def Cursor.SameToEnd (c c' : Cursor) : Prop := upToEnd c.tokens = upToEnd c'.tokens

namespace Cursor.SameToEnd

variable {c c' : Cursor} (h : c.SameToEnd c')

include h

theorem current_eq : c'.current = c.current := by
  obtain ⟨others, hcons⟩ := exists_upToEnd_cons c.current c.ahead
  obtain ⟨others', hcons'⟩ := exists_upToEnd_cons c'.current c'.ahead
  have hsame : upToEnd (c.current :: c.ahead) = upToEnd (c'.current :: c'.ahead) := h
  rw [hcons, hcons'] at hsame
  exact (List.cons.inj hsame).1.symm

theorem unexpected_eq (wanted : Wanted) : c'.unexpected wanted = c.unexpected wanted := by
  rw [Cursor.unexpected, Cursor.unexpected, h.current_eq]

theorem advance : c.advance.SameToEnd c'.advance := by
  have hcurrent := h.current_eq
  by_cases hfinish : c.current.lexeme = .finish
  · rw [Cursor.advance, if_pos hfinish, Cursor.advance, if_pos (hcurrent ▸ hfinish)]
    exact h
  · have hfinish' : c'.current.lexeme ≠ .finish := hcurrent ▸ hfinish
    have hahead : upToEnd c.ahead = upToEnd c'.ahead := by
      have hsame : upToEnd (c.current :: c.ahead) = upToEnd (c'.current :: c'.ahead) := h
      rw [upToEnd_of_ne hfinish, upToEnd_of_ne hfinish'] at hsame
      exact (List.cons.inj hsame).2
    rw [SameToEnd, tokens_advance hfinish, tokens_advance hfinish']
    by_cases hnil : c.ahead = []
    · rw [if_pos hnil, if_pos (upToEnd_eq_nil_iff.mp (hahead ▸ upToEnd_eq_nil_iff.mpr hnil))]
      exact h
    · rw [if_neg hnil, if_neg fun hnil' ↦
        hnil (upToEnd_eq_nil_iff.mp (hahead ▸ upToEnd_eq_nil_iff.mpr hnil'))]
      exact hahead

end Cursor.SameToEnd

/-! ## Tokens without an end -/

theorem Cursor.advance_tokens_subset (c : Cursor) : c.advance.tokens ⊆ c.tokens := by
  by_cases hfinish : c.current.lexeme = .finish
  · rw [Cursor.advance, if_pos hfinish]
    exact List.Subset.refl _
  · rw [tokens_advance hfinish]
    split
    case isTrue => exact List.Subset.refl _
    case isFalse => exact List.subset_cons_self _ _

theorem Cursor.Path.tokens_subset {c c' : Cursor} {u : List Lexeme} (h : c.Path u c') :
    c'.tokens ⊆ c.tokens := by
  induction h with
  | refl c => exact List.Subset.refl _
  | @step c c' u _ _ ih => exact List.Subset.trans ih c.advance_tokens_subset

/-- What is accepted has an end. -/
theorem finish_mem_of_ofTokens {tokens : List Token} {limit : Nat} {expr : Expr}
    (h : Expr.ofTokens tokens limit = .ok expr) : .finish ∈ tokens.map Token.lexeme := by
  cases tokens with
  | nil => cases h
  | cons first rest =>
    rw [Expr.ofTokens, bind_eq_ok_iff] at h
    obtain ⟨⟨node, c⟩, hwhole, -⟩ := h
    rw [Reading.whole, bind_eq_ok_iff] at hwhole
    obtain ⟨⟨node', c'⟩, hsum, hfinish⟩ := hwhole
    dsimp only at hfinish
    have houtcome := sum_outcome (Nat.le_refl limit) (negation_outcome (Nat.le_refl limit))
      ⟨first, rest, 0⟩
    rw [hsum] at houtcome
    split at hfinish
    case isTrue hlexeme =>
      cases houtcome with
      | ok hpath hread =>
        rw [← hlexeme]
        exact List.mem_map_of_mem (hpath.tokens_subset List.mem_cons_self)
    case isFalse => cases hfinish

end Reckoner
