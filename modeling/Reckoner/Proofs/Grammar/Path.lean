import Reckoner.Proofs.Grammar.Place

/-!
# Paths through the Tokens

A path leads from one place in the tokens to a later one, past lexemes that are not the end.  Where
the tokens do have an end, a path is a part of them; where they stop without one, it goes on past
the last token for ever.

Along a path the places of the grammar tell which token is the first that is impossible, and
`Blames` says that a fault names this token and what was asked for instead.
-/

namespace Reckoner

namespace Cursor

def tokens (c : Cursor) : List Token := c.current :: c.ahead

/-- The end is still ahead, or here. -/
def Ends (c : Cursor) : Prop := .finish ∈ c.tokens.map Token.lexeme

/-- The second place comes after the first and these lexemes, none of which is the end. -/
inductive Path : Cursor → List Lexeme → Cursor → Prop where
  | refl (c : Cursor) : Path c [] c
  | step {c c' : Cursor} {u : List Lexeme} (h : c.current.lexeme ≠ .finish)
      (rest : Path c.advance u c') : Path c (c.current.lexeme :: u) c'

variable {c c' c'' : Cursor} {u v : List Lexeme} {lexeme : Lexeme}

/-! ## Parts of paths -/

theorem Path.one (h : c.current.lexeme = lexeme) (hne : lexeme ≠ .finish) :
    c.Path [lexeme] c.advance := by
  subst h
  exact .step hne (.refl _)

theorem Path.trans (h : c.Path u c') (h' : c'.Path v c'') : c.Path (u ++ v) c'' := by
  induction h with
  | refl => exact h'
  | step hne _ ih => exact .step hne (ih h')

theorem path_nil_iff : c.Path [] c' ↔ c' = c := by
  constructor
  · intro h
    cases h
    rfl
  · rintro rfl
    exact .refl _

theorem path_cons_iff :
    c.Path (lexeme :: u) c' ↔
      c.current.lexeme = lexeme ∧ lexeme ≠ .finish ∧ c.advance.Path u c' := by
  constructor
  · intro h
    cases h with
    | step hne rest => exact ⟨rfl, hne, rest⟩
  · rintro ⟨rfl, hne, rest⟩
    exact .step hne rest

theorem path_append_iff : c.Path (u ++ v) c' ↔ ∃ d, c.Path u d ∧ d.Path v c' := by
  constructor
  · intro h
    induction u generalizing c with
    | nil => exact ⟨c, .refl c, h⟩
    | cons lexeme u ih =>
      obtain ⟨hlexeme, hne, rest⟩ := path_cons_iff.mp h
      obtain ⟨d, hu, hv⟩ := ih rest
      exact ⟨d, path_cons_iff.mpr ⟨hlexeme, hne, hu⟩, hv⟩
  · rintro ⟨d, hu, hv⟩
    exact hu.trans hv

/-- Lexemes lead to one place only. -/
theorem Path.eq (h : c.Path u c') (h' : c.Path u c'') : c' = c'' := by
  induction h with
  | refl => exact (path_nil_iff.mp h').symm
  | step _ _ ih => exact ih (path_cons_iff.mp h').2.2

/-- What is left of a path after its first part. -/
theorem Path.rest (h : c.Path u c') (h' : c.Path (u ++ v) c'') : c'.Path v c'' := by
  obtain ⟨d, hu, hv⟩ := path_append_iff.mp h'
  rw [h.eq hu]
  exact hv

/-! ## Paths and the tokens -/

theorem advance_eq (h : c.current.lexeme ≠ .finish) :
    c.advance =
      match c.ahead with
      | [] => { c with taken := c.taken + 1 }
      | next :: rest => ⟨next, rest, c.taken + 1⟩ := if_neg h

theorem Ends.tokens_advance (h : c.Ends) (hne : c.current.lexeme ≠ .finish) :
    c.advance.tokens = c.ahead ∧ c.advance.Ends := by
  have hahead : .finish ∈ c.ahead.map Token.lexeme := by
    simpa [Ends, tokens, Ne.symm hne] using h
  rw [advance_eq hne]
  cases htokens : c.ahead with
  | nil =>
    rw [htokens] at hahead
    cases hahead
  | cons next rest =>
    rw [htokens] at hahead
    exact ⟨rfl, hahead⟩

/-- A path is a part of tokens that have an end. -/
theorem Path.tokens (h : c.Path u c') (hends : c.Ends) :
    c.tokens.map Token.lexeme = u ++ c'.tokens.map Token.lexeme ∧
      c'.tokens = c.tokens.drop u.length ∧ c'.Ends := by
  induction h with
  | refl => exact ⟨rfl, rfl, hends⟩
  | @step c c' u hne rest ih =>
    obtain ⟨hadvance, hends'⟩ := hends.tokens_advance hne
    obtain ⟨hlexemes, hdrop, hend⟩ := ih hends'
    rw [hadvance] at hlexemes hdrop
    refine ⟨?_, hdrop, hend⟩
    rw [List.cons_append, ← hlexemes]
    rfl

theorem Path.length_tokens (h : c.Path u c') (hends : c.Ends) :
    c.tokens.length = u.length + c'.tokens.length := by
  have hlexemes := congrArg List.length (h.tokens hends).1
  simpa using hlexemes

theorem Path.length_lt (h : c.Path u c') (hends : c.Ends) : u.length < c.tokens.length := by
  rw [h.length_tokens hends, Cursor.tokens, List.length_cons]
  omega

/-- Lexemes without an end at the beginning of the tokens are a path. -/
theorem exists_path {w : List Lexeme} (h : c.tokens.map Token.lexeme = u ++ lexeme :: w)
    (hu : .finish ∉ u) : ∃ c', c.Path u c' ∧ c'.current.lexeme = lexeme := by
  induction u generalizing c with
  | nil =>
    obtain ⟨hlexeme, -⟩ := List.cons.inj h
    exact ⟨c, .refl c, hlexeme⟩
  | cons first u ih =>
    obtain ⟨hfirst, hrest⟩ := List.cons.inj h
    rw [List.mem_cons, not_or] at hu
    have hne : c.current.lexeme ≠ .finish := hfirst ▸ Ne.symm hu.1
    have hadvance : c.advance.tokens = c.ahead := by
      rw [advance_eq hne]
      cases htokens : c.ahead with
      | nil => simp [htokens] at hrest
      | cons next rest => rfl
    obtain ⟨c', hpath, hlexeme⟩ := ih (hadvance ▸ hrest) hu.2
    exact ⟨c', path_cons_iff.mpr ⟨hfirst, hfirst ▸ hne, hpath⟩, hlexeme⟩

/-! ## What is ahead -/

/-- Each lexeme takes one token from those ahead, as long as there is one. -/
theorem Path.length_ahead (h : c.Path u c') : c'.ahead.length = c.ahead.length - u.length := by
  induction h with
  | refl => rfl
  | @step c c' u hne rest ih =>
    rw [ih, advance_eq hne, List.length_cons]
    cases c.ahead with
    | nil => simp
    | cons next rest =>
      simp only [List.length_cons]
      omega

/-- Where no token is ahead, the last one is seen for ever. -/
theorem Path.eq_replicate (h : c.Path u c') (hlast : c.ahead = []) :
    u = List.replicate u.length c.current.lexeme ∧
      c'.current.lexeme = c.current.lexeme := by
  induction h with
  | refl => exact ⟨rfl, rfl⟩
  | @step c c' u hne rest ih =>
    have hadvance : c.advance = { c with taken := c.taken + 1 } := by
      rw [advance_eq hne, hlast]
    rw [hadvance] at ih
    obtain ⟨hu, hlexeme⟩ := ih hlast
    refine ⟨?_, hlexeme⟩
    rw [List.length_cons, List.replicate_succ, ← hu]

end Cursor

/-! ## Blame -/

namespace Grammar

open Cursor

/-- The fault names the first token that is impossible on the way from here, and what is asked for
in its stead. -/
def Blames (place : Place) (c : Cursor) (fault : Unexpected) : Prop :=
  ∃ u c' p, c.Path u c' ∧ place.run u = some p ∧ p.step c'.current.lexeme = none ∧
    fault = ⟨c'.current.position, p.wanted, c'.current.lexeme⟩

variable {place p q : Place} {c c' : Cursor} {fault : Unexpected} {u : List Lexeme}

theorem blames_here (h : place.step c.current.lexeme = none) :
    Blames place c ⟨c.current.position, place.wanted, c.current.lexeme⟩ :=
  ⟨[], c, place, .refl c, rfl, h, rfl⟩

theorem Blames.after (h : Blames p c' fault) (hpath : c.Path u c') (hrun : place.run u = some p) :
    Blames place c fault := by
  obtain ⟨v, d, q, hv, hrun', hstep, hfault⟩ := h
  refine ⟨u ++ v, d, q, hpath.trans hv, ?_, hstep, hfault⟩
  rw [Place.run_append, hrun, Option.bind_some, hrun']

theorem Blames.congr (h : Blames q c fault) (hagree : Place.AgreesAt c.current.lexeme p q) :
    Blames p c fault := by
  obtain ⟨v, d, r, hv, hrun, hstep, hfault⟩ := h
  cases hv with
  | refl =>
    cases hrun
    refine ⟨[], c, p, .refl c, rfl, hagree.1.trans hstep, ?_⟩
    rw [hfault, hagree.2]
  | step hne rest =>
    refine ⟨_, d, r, .step hne rest, ?_, hstep, hfault⟩
    rw [Place.run_cons, hagree.1]
    exact hrun

end Grammar

end Reckoner
