import Reckoner.Proofs.Lexing.Spelling

/-!
# White Space between Texts

White space between two texts does nothing but keep their lexemes apart.  The tokens before it are
those of the first text alone, those after it are those of the second, moved on, and a fault of
either text is the fault of the whole.

It may also be put into a text, wherever no token has characters on both sides: the scan gets to
this place, and its lexemes up to there are the longest ones of the text up to there too.
-/

namespace Reckoner

/-- The token with everything before it so much longer. -/
def Token.shift (offset : Nat) (token : Token) : Token :=
  ⟨token.lexeme, offset + token.position⟩

/-- The token has characters on both sides of the offset. -/
def Token.Spans (cs : List Char) (token : Token) (offset : Nat) : Prop :=
  ∃ w, Longest (cs.drop token.position) w token.lexeme ∧
    token.position < offset ∧ offset < token.position + w.length

section

variable {cs u v w : List Char} {tokens : List Token} {lexeme : Lexeme} {position offset : Nat}

/-! ## White space between two texts -/

theorem Token.ofCharsFrom_blanks (h : ∀ c ∈ w, Text.isBlank c) (position : Nat) (r : List Char) :
    ofCharsFrom position (w ++ r) = ofCharsFrom (position + w.length) r := by
  induction w generalizing position with
  | nil => rfl
  | cons c w ih =>
    have hposition : position + 1 + w.length = position + (c :: w).length := by
      rw [List.length_cons]
      omega
    rw [List.cons_append, ofCharsFrom_blank (h c List.mem_cons_self),
      ih fun c hc ↦ h c (List.mem_cons_of_mem _ hc), hposition]

/-- The tokens of two texts with white space between them. -/
theorem Token.ofCharsFrom_append_blanks (h : ∀ c ∈ w, Text.isBlank c) (hne : w ≠ [])
    (position : Nat) (l r : List Char) :
    ofCharsFrom position (l ++ w ++ r) =
      (ofCharsFrom position l).bind fun before ↦
        (ofCharsFrom (position + l.length + w.length) r).map (before.dropLast ++ ·) := by
  rw [← ofCharsFrom_blanks h]
  obtain ⟨d, blanks, rfl⟩ := List.exists_cons_of_ne_nil hne
  rw [List.append_assoc]
  exact ofCharsFrom_append (Lexeme.separates_of_blank (h d List.mem_cons_self)) position l
    (blanks ++ r)

/-! ## The scan up to an offset -/

/-- A longest spelling that ends within the first part is the longest of this part. -/
theorem Longest.of_append (h : Longest (u ++ v) w lexeme) (hle : w.length ≤ u.length) :
    Longest u w lexeme where
  spells := h.spells
  begins := List.prefix_of_prefix_length_le h.begins (List.prefix_append u v) hle
  longest w' lexeme' hw' hbegins :=
    h.longest w' lexeme' hw' (hbegins.trans (List.prefix_append u v))

/-- What is scanned within the first part is scanned alike if nothing follows this part. -/
theorem Scans.of_append (h : Scans (u ++ v) tokens position) (hle : position ≤ u.length) :
    Scans u tokens position := by
  induction h with
  | start => exact .start
  | @blank tokens position c h hc hblank ih =>
    rw [List.getElem?_append_left hle] at hc
    exact .blank (ih (Nat.le_of_succ_le hle)) hc hblank
  | @lexeme tokens position c w lexeme h hc hblank hlongest ih =>
    obtain ⟨first, rest, hw⟩ := hlongest.spells.exists_cons
    have hlength : w.length = rest.length + 1 := by rw [hw, List.length_cons]
    rw [List.getElem?_append_left (by omega)] at hc
    rw [List.drop_append_of_le_length (by omega)] at hlongest
    have hwithin : w.length ≤ (u.drop position).length := by
      rw [List.length_drop]
      omega
    exact .lexeme (ih (by omega)) hc hblank (hlongest.of_append hwithin)

/-- The scan gets to every offset that no token spans. -/
theorem Scans.visits (h : Scans cs tokens position)
    (hspans : ∀ token ∈ tokens, ¬ token.Spans cs offset) (hle : offset ≤ position) :
    ∃ before, Scans cs before offset := by
  induction h with
  | start =>
    rw [Nat.le_zero.mp hle]
    exact ⟨[], .start⟩
  | @blank tokens position c h hc hblank ih =>
    rcases Nat.lt_or_eq_of_le hle with hlt | rfl
    · exact ih hspans (Nat.le_of_lt_succ hlt)
    · exact ⟨tokens, .blank h hc hblank⟩
  | @lexeme tokens position c w lexeme h hc hblank hlongest ih =>
    rcases Nat.lt_or_eq_of_le hle with hlt | rfl
    · rcases Nat.lt_or_ge position offset with hafter | hbefore
      · have hhere : Token.Spans cs ⟨lexeme, position⟩ offset := ⟨w, hlongest, hafter, hlt⟩
        exact absurd hhere (hspans _ (List.mem_append_right _ List.mem_cons_self))
      · exact ih (fun token htoken ↦ hspans token (List.mem_append_left _ htoken)) hbefore
    · exact ⟨_, .lexeme h hc hblank hlongest⟩

/-- A text that has tokens is scanned to its end. -/
theorem exists_scans_of_ofChars (h : Token.ofCharsFrom 0 cs = .ok tokens) :
    ∃ scanned, Scans cs scanned cs.length ∧ tokens = scanned ++ [⟨.finish, cs.length⟩] := by
  have hstart : Scans cs [] 0 := .start
  rcases hstart.ends with ⟨scanned, hscans⟩ | ⟨position, c, hstuck⟩
  · rw [hscans.ofCharsFrom, List.drop_length, Token.ofCharsFrom_nil] at h
    cases h
    exact ⟨scanned, hscans, rfl⟩
  · obtain ⟨scanned, hscans⟩ := hstuck.scans
    obtain ⟨-, hdrop⟩ := drop_eq_cons hstuck.here
    have hnone := hstuck.noLexeme
    rw [hdrop, noLexemeStarts_iff] at hnone
    rw [hscans.ofCharsFrom, hdrop, Token.ofCharsFrom_bad hstuck.not_blank hnone] at h
    cases h

theorem Scans.position_lt (h : Scans cs tokens position) {token : Token} (htoken : token ∈ tokens) :
    token.position < position := by
  have hincreasing := List.pairwise_append.mp h.increasing
  exact hincreasing.2.2 _ (List.mem_map_of_mem htoken) _ (List.mem_singleton_self _)

theorem Token.le_position_of_ofCharsFrom (h : ofCharsFrom position cs = .ok tokens) {token : Token}
    (htoken : token ∈ tokens) : position ≤ token.position := by
  have hshift := ofCharsFrom_add position 0 cs
  rw [Nat.add_zero, h] at hshift
  split at hshift
  case h_1 tokens' _ =>
    cases hshift
    obtain ⟨token', -, rfl⟩ := List.mem_map.mp htoken
    exact Nat.le_add_right _ _
  case h_2 => cases hshift

/-- Where no token spans the border, the tokens of two texts are those of the first and those of the
second. -/
theorem exists_tokens_of_not_spans (h : Token.ofCharsFrom 0 (u ++ v) = .ok tokens)
    (hspans : ∀ token ∈ tokens, ¬ token.Spans (u ++ v) u.length) :
    ∃ before after, tokens = before ++ after ∧ (∀ token ∈ before, token.position < u.length) ∧
      Token.ofCharsFrom 0 u = .ok (before ++ [⟨.finish, u.length⟩]) ∧
      Token.ofCharsFrom u.length v = .ok after := by
  obtain ⟨scanned, hscans, hscanned⟩ := exists_scans_of_ofChars h
  have hscannedSpans : ∀ token ∈ scanned, ¬ token.Spans (u ++ v) u.length := by
    intro token htoken
    exact hspans token (hscanned ▸ List.mem_append_left _ htoken)
  have hborder : u.length ≤ (u ++ v).length := by
    rw [List.length_append]
    exact Nat.le_add_right _ _
  obtain ⟨before, hbefore⟩ := hscans.visits hscannedSpans hborder
  have hfirst := hbefore.of_append (Nat.le_refl u.length)
  have hu : Token.ofCharsFrom 0 u = .ok (before ++ [⟨.finish, u.length⟩]) := by
    rw [hfirst.ofCharsFrom, List.drop_length, Token.ofCharsFrom_nil]
    rfl
  rw [hbefore.ofCharsFrom, List.drop_left, map_eq_ok_iff] at h
  obtain ⟨after, hafter, rfl⟩ := h
  exact ⟨before, after, rfl, fun _ htoken ↦ hfirst.position_lt htoken, hu, hafter⟩

end

/-- White space between two texts separates them: a fault of the first is that of the whole, a fault
of the second is so further on, and otherwise the tokens of the second follow those of the first.
White space put into a text at an offset that no token spans changes no lexeme and moves on what
comes after it. -/
theorem ofText_white_space (a b w : String) (hblank : ∀ c ∈ w.toList, Text.isBlank c)
    (hne : w ≠ "") :
    (∀ fault, Token.ofText a = .error fault → Token.ofText (a ++ w ++ b) = .error fault) ∧
    (∀ tokens fault, Token.ofText a = .ok tokens → Token.ofText b = .error fault →
      Token.ofText (a ++ w ++ b) =
        .error ⟨a.length + w.length + fault.position, fault.character⟩) ∧
    (∀ tokens tokens', Token.ofText a = .ok tokens → Token.ofText b = .ok tokens' →
      ∃ before, tokens = before ++ [⟨.finish, a.length⟩] ∧
        Token.ofText (a ++ w ++ b) =
          .ok (before ++ tokens'.map (Token.shift (a.length + w.length)))) ∧
    ∀ tokens, Token.ofText (a ++ b) = .ok tokens →
      (∀ token ∈ tokens, ¬ token.Spans (a ++ b).toList a.length) →
      Token.ofText (a ++ w ++ b) = .ok (tokens.map fun token ↦
        if token.position < a.length then token else token.shift w.length) := by
  have hnil : w.toList ≠ [] := by
    rwa [ne_eq, String.toList_eq_nil_iff]
  have happend := Token.ofCharsFrom_append_blanks hblank hnil 0 a.toList b.toList
  have hshift := Token.ofCharsFrom_add (a.length + w.length) 0 b.toList
  simp only [Token.ofText, String.toList_append]
  rw [Nat.zero_add, String.length_toList, String.length_toList] at happend
  rw [Nat.add_zero] at hshift
  refine ⟨?_, ?_, ?_, ?_⟩
  · intro fault ha
    rw [happend, ha]
    rfl
  · intro tokens fault ha hb
    rw [happend, ha, hshift, hb]
    rfl
  · intro tokens tokens' ha hb
    obtain ⟨before, -, hbefore⟩ := exists_scans_of_ofChars ha
    rw [String.length_toList] at hbefore
    refine ⟨before, hbefore, ?_⟩
    rw [happend, ha, hshift, hb, hbefore]
    simp only [Except.bind, Except.map, List.dropLast_concat]
    rfl
  · intro tokens htokens hspans
    rw [← String.length_toList] at hspans
    obtain ⟨before, after, rfl, hbefore, ha, hb⟩ := exists_tokens_of_not_spans htokens hspans
    have hmove := Token.ofCharsFrom_add w.length a.length b.toList
    rw [String.length_toList] at hbefore ha hb
    rw [Nat.add_comm, hb] at hmove
    have hkept : before.map (fun token ↦ if token.position < a.length then token
        else token.shift w.length) = before := by
      conv => rhs; rw [← List.map_id before]
      apply List.map_congr_left
      intro token htoken
      exact if_pos (hbefore token htoken)
    have hmoved : after.map (fun token ↦ if token.position < a.length then token
        else token.shift w.length) = after.map (Token.shift w.length) := by
      apply List.map_congr_left
      intro token htoken
      exact if_neg (Nat.not_lt.mpr (Token.le_position_of_ofCharsFrom hb htoken))
    rw [happend, ha, hmove, List.map_append, hkept, hmoved]
    simp only [Except.bind, Except.map, List.dropLast_concat]
    rfl

/-- The tokens of `2e+x`, whose letter and sign would be an exponent if digits followed. -/
def noExponentTokens : List Token :=
  [⟨.number (.ofNat 2), 0⟩, ⟨.name "e", 1⟩, ⟨.plus, 2⟩, ⟨.name "x", 3⟩, ⟨.finish, 4⟩]

theorem not_spans_noExponentTokens :
    ∀ token ∈ noExponentTokens, ¬ token.Spans ("2" ++ "e+x").toList "2".length := by
  rintro token htoken ⟨w, hlongest, hbefore, hafter⟩
  have hlength : "2".length = 1 := rfl
  rw [hlength] at hbefore hafter
  have hnumber : token = ⟨.number (.ofNat 2), 0⟩ := by
    simp only [noExponentTokens, List.mem_cons, List.not_mem_nil, or_false] at htoken
    rcases htoken with rfl | rfl | rfl | rfl | rfl
    · rfl
    all_goals exact absurd hbefore (by decide)
  subst hnumber
  have hchars : ("2" ++ "e+x").toList.drop 0 = '2' :: "e+x".toList := by decide +kernel
  dsimp only at hlongest hafter
  rw [hchars] at hlongest
  obtain ⟨more, -, hmore, hread⟩ := hlongest.read?
  have hone : Lexeme.read? '2' "e+x".toList = some (.number (.ofNat 2), 0) := by decide +kernel
  rw [hone] at hread
  cases hread
  omega

/-- White space in the middle of what would be an exponent. -/
theorem exponent_white_space :
    Token.ofText ("2e" ++ "\t " ++ "+3") =
      .ok [⟨.number (.ofNat 2), 0⟩, ⟨.name "e", 1⟩, ⟨.plus, 4⟩, ⟨.number (.ofNat 3), 5⟩,
        ⟨.finish, 6⟩] ∧
    Token.ofText ("2e" ++ "\t " ++ "+$") = .error ⟨5, '$'⟩ ∧
    Token.ofText ("2$" ++ "\t " ++ "+3") = .error ⟨1, '$'⟩ ∧
    Token.ofText ("2" ++ "\t " ++ "e+x") =
      .ok [⟨.number (.ofNat 2), 0⟩, ⟨.name "e", 3⟩, ⟨.plus, 4⟩, ⟨.name "x", 5⟩, ⟨.finish, 6⟩] := by
  have hblank : ∀ c ∈ "\t ".toList, Text.isBlank c := List.all_eq_true.mp (by decide)
  have hne : "\t " ≠ "" := by decide
  refine ⟨?_, ?_, ?_, ?_⟩
  · obtain ⟨before, htokens, htext⟩ := (ofText_white_space "2e" "+3" "\t " hblank hne).2.2.1
      ([⟨.number (.ofNat 2), 0⟩, ⟨.name "e", 1⟩] ++ [⟨.finish, 2⟩])
      [⟨.plus, 0⟩, ⟨.number (.ofNat 3), 1⟩, ⟨.finish, 2⟩] (by decide +kernel) (by decide +kernel)
    rw [htext, ← List.append_cancel_right htokens]
    rfl
  · exact (ofText_white_space "2e" "+$" "\t " hblank hne).2.1
      [⟨.number (.ofNat 2), 0⟩, ⟨.name "e", 1⟩, ⟨.finish, 2⟩] ⟨1, '$'⟩ (by decide +kernel)
      (by decide +kernel)
  · exact (ofText_white_space "2$" "+3" "\t " hblank hne).1 ⟨1, '$'⟩ (by decide +kernel)
  · exact (ofText_white_space "2" "e+x" "\t " hblank hne).2.2.2 noExponentTokens
      (by decide +kernel) not_spans_noExponentTokens

end Reckoner
