import Reckoner.Proofs.Attempt
import Reckoner.Proofs.Grammar.Phrase
import Reckoner.Token.Scan

/-!
# Separators

A text is cut into lexemes one after the other, and the only look-ahead is that of names and
numbers.  White space and the marks other than the signs end every name and every number, so a
text can be cut at such a character: the lexemes before it do not depend on what follows, and
those after it do not depend on what came before.  Positions are counted from where the text
begins, and shift with it.
-/

namespace Reckoner

/-! ## One lexeme -/

/-- The character ends every name and every number before it. -/
def Separates (c : Char) : Prop :=
  Lexeme.continuesName c = false ∧ c ≠ '.' ∧ c ≠ '+' ∧ c ≠ '-'

instance (c : Char) : Decidable (Separates c) := inferInstanceAs (Decidable (_ ∧ _ ∧ _ ∧ _))

theorem takeWhile_append_cons {α : Type} {p : α → Bool} {x : α} (h : p x = false) (l r : List α) :
    (l ++ x :: r).takeWhile p = l.takeWhile p := by
  induction l with
  | nil => simp [h]
  | cons y l ih => simp [List.takeWhile_cons, ih]

theorem dropWhile_append_cons {α : Type} {p : α → Bool} {x : α} (h : p x = false) (l r : List α) :
    (l ++ x :: r).dropWhile p = l.dropWhile p ++ x :: r := by
  induction l with
  | nil => simp [h]
  | cons y l ih =>
    rw [List.cons_append, List.dropWhile_cons, List.dropWhile_cons, ih]
    split <;> rfl

namespace Separates

variable {d : Char} {l r : List Char}

theorem isDigit_eq_false (h : Separates d) : d.isDigit = false := by
  have hname := h.1
  simp only [Lexeme.continuesName, Char.isAlphanum, Bool.or_eq_false_iff] at hname
  exact hname.1.2

theorem ne_exponent (h : Separates d) : ¬ (d = 'e' ∨ d = 'E') := by
  rintro (rfl | rfl) <;> exact absurd h.1 (by decide)

theorem afterMark?_append (h : Separates d) (mark : List Char) (negative : Bool) :
    ExponentText.afterMark? mark negative (l ++ d :: r) =
      ExponentText.afterMark? mark negative l := by
  rw [ExponentText.afterMark?, ExponentText.afterMark?, takeWhile_append_cons h.isDigit_eq_false]

theorem readExponent_append (h : Separates d) :
    ExponentText.read? (l ++ d :: r) = ExponentText.read? l := by
  match l with
  | [] =>
    unfold ExponentText.read?
    exact if_neg h.ne_exponent
  | [letter] =>
    have hafter : ExponentText.afterMark? [letter] false (d :: r) =
        ExponentText.afterMark? [letter] false [] := h.afterMark?_append (l := []) _ _
    have hplus := h.2.2.1
    have hminus := h.2.2.2
    simp [ExponentText.read?, hafter, hplus, hminus]
  | letter :: second :: rest =>
    simp only [List.cons_append, ExponentText.read?]
    split
    · by_cases hplus : second = '+'
      · subst hplus
        exact h.afterMark?_append _ _
      · by_cases hminus : second = '-'
        · subst hminus
          exact h.afterMark?_append _ _
        · have hafter := h.afterMark?_append (l := second :: rest) (r := r) [letter] false
          simpa [hplus, hminus] using hafter
    · rfl

theorem readNumber_append (h : Separates d) :
    NumberText.read (l ++ d :: r) = NumberText.read l := by
  rw [NumberText.read, NumberText.read, takeWhile_append_cons h.isDigit_eq_false,
    dropWhile_append_cons h.isDigit_eq_false]
  generalize l.dropWhile Char.isDigit = rest
  match rest with
  | [] =>
    have hexponent := h.readExponent_append (l := []) (r := r)
    have hpoint := h.2.1
    simpa [hpoint] using hexponent
  | first :: rest =>
    by_cases hpoint : first = '.'
    · subst hpoint
      simp only [List.cons_append, takeWhile_append_cons h.isDigit_eq_false,
        dropWhile_append_cons h.isDigit_eq_false, h.readExponent_append]
    · have hexponent := h.readExponent_append (l := first :: rest) (r := r)
      simpa [hpoint] using hexponent

theorem starts_append (h : Separates d) (first : Char) :
    NumberText.starts (first :: (l ++ d :: r)) = NumberText.starts (first :: l) := by
  have hdigit := h.isDigit_eq_false
  cases l with
  | nil =>
    by_cases hpoint : first = '.'
    · subst hpoint
      simp [NumberText.starts, hdigit]
    · simp [NumberText.starts, hpoint]
  | cons second rest =>
    by_cases hpoint : first = '.'
    · subst hpoint
      rfl
    · simp [NumberText.starts, hpoint]

theorem readLexeme_append (h : Separates d) (first : Char) :
    Lexeme.read? first (l ++ d :: r) = Lexeme.read? first l := by
  have hnumber : NumberText.read (first :: (l ++ d :: r)) = NumberText.read (first :: l) :=
    h.readNumber_append (l := first :: l)
  rw [Lexeme.read?, Lexeme.read?, takeWhile_append_cons h.1, h.starts_append, hnumber]

end Separates

/-! ## The characters of a lexeme -/

theorem ExponentText.chars_prefix {cs : List Char} {e : ExponentText}
    (h : ExponentText.read? cs = some e) : e.chars <+: cs := by
  have hafter : ∀ mark negative rest, ExponentText.afterMark? mark negative rest = some e →
      e.chars <+: mark ++ rest := by
    intro mark negative rest he
    rw [ExponentText.afterMark?] at he
    split at he
    · cases he
    · cases he
      exact List.prefix_append_right_inj mark |>.mpr (List.takeWhile_prefix _)
  unfold ExponentText.read? at h
  split at h
  case h_1 letter rest =>
    split at h
    case isTrue =>
      split at h
      · exact hafter _ _ _ h
      · exact hafter _ _ _ h
      · exact hafter _ _ _ h
    case isFalse => cases h
  case h_2 => cases h

/-- What is read as a number is the beginning of the text. -/
theorem NumberText.chars_prefix (cs : List Char) : (NumberText.read cs).chars <+: cs := by
  have hexponent : ∀ rest : List Char,
      (ExponentText.read? rest).elim [] ExponentText.chars <+: rest := by
    intro rest
    cases h : ExponentText.read? rest with
    | none => exact List.nil_prefix
    | some e => exact ExponentText.chars_prefix h
  have hsplit := List.takeWhile_append_dropWhile (p := Char.isDigit) (l := cs)
  unfold NumberText.read
  split
  case h_1 rest hrest =>
    rw [hrest] at hsplit
    have hfraction := List.takeWhile_append_dropWhile (p := Char.isDigit) (l := rest)
    conv => rhs; rw [← hsplit, ← hfraction]
    simp only [NumberText.chars, Option.elim_some, List.append_assoc, List.cons_append]
    exact (List.prefix_append_right_inj _).mpr
      (List.cons_prefix_cons.mpr ⟨rfl, (List.prefix_append_right_inj _).mpr (hexponent _)⟩)
  case h_2 =>
    conv => rhs; rw [← hsplit]
    simp only [NumberText.chars, Option.elim_none, List.append_nil]
    exact (List.prefix_append_right_inj _).mpr (hexponent _)

theorem Lexeme.read?_length {first : Char} {rest : List Char} {lexeme : Lexeme} {more : Nat}
    (h : Lexeme.read? first rest = some (lexeme, more)) : more ≤ rest.length := by
  unfold Lexeme.read? at h
  split at h
  · cases h
    omega
  · split at h
    · cases h
      exact (List.takeWhile_prefix _).length_le
    · split at h
      · cases h
        have hprefix := (NumberText.chars_prefix (first :: rest)).length_le
        rw [List.length_cons] at hprefix
        omega
      · cases h

theorem Lexeme.ne_finish_of_read? {first : Char} {rest : List Char} {lexeme : Lexeme} {more : Nat}
    (h : Lexeme.read? first rest = some (lexeme, more)) : lexeme ≠ .finish := by
  rintro rfl
  unfold Lexeme.read? at h
  split at h
  case h_1 mark hmark =>
    cases h
    unfold Lexeme.ofMark? at hmark
    split at hmark <;> cases hmark
  case h_2 =>
    split at h
    · cases h
    · split at h <;> cases h

/-! ## All lexemes -/

namespace Token

variable {first : Char} {rest : List Char} {lexeme : Lexeme} {more : Nat}

theorem ofCharsFrom_nil (position : Nat) : ofCharsFrom position [] = .ok [⟨.finish, position⟩] := by
  rw [ofCharsFrom]

theorem ofCharsFrom_blank (h : Text.isBlank first) (position : Nat) :
    ofCharsFrom position (first :: rest) = ofCharsFrom (position + 1) rest := by
  rw [ofCharsFrom, if_pos h]

theorem ofCharsFrom_bad (hblank : ¬ Text.isBlank first) (h : Lexeme.read? first rest = none)
    (position : Nat) : ofCharsFrom position (first :: rest) = .error ⟨position, first⟩ := by
  rw [ofCharsFrom, if_neg hblank, h]

theorem ofCharsFrom_lexeme (hblank : ¬ Text.isBlank first)
    (h : Lexeme.read? first rest = some (lexeme, more)) (position : Nat) :
    ofCharsFrom position (first :: rest) =
      (ofCharsFrom (position + 1 + more) (rest.drop more)).map (⟨lexeme, position⟩ :: ·) := by
  rw [ofCharsFrom, if_neg hblank, h]
  rfl

theorem ofCharsFrom_ne_nil {position : Nat} {cs : List Char} {tokens : List Token}
    (h : ofCharsFrom position cs = .ok tokens) : tokens ≠ [] := by
  rintro rfl
  induction position, cs using Token.ofCharsFrom.induct with
  | case1 position =>
    rw [ofCharsFrom_nil] at h
    cases h
  | case2 position first rest hblank ih =>
    rw [ofCharsFrom_blank hblank] at h
    exact ih h
  | case3 position first rest hblank hread =>
    rw [ofCharsFrom_bad hblank hread] at h
    cases h
  | case4 position first rest hblank lexeme more hread ih =>
    rw [ofCharsFrom_lexeme hblank hread] at h
    cases htail : ofCharsFrom (position + 1 + more) (rest.drop more) with
    | error fault =>
      rw [htail] at h
      cases h
    | ok tokens =>
      rw [htail] at h
      cases h

/-- The tokens of a text do not depend on what comes after a separator. -/
theorem ofCharsFrom_append {d : Char} (h : Separates d) (position : Nat) (l r : List Char) :
    ofCharsFrom position (l ++ d :: r) =
      (ofCharsFrom position l).bind fun before ↦
        (ofCharsFrom (position + l.length) (d :: r)).map (before.dropLast ++ ·) := by
  induction position, l using Token.ofCharsFrom.induct with
  | case1 position =>
    rw [ofCharsFrom_nil, List.nil_append, List.length_nil, Nat.add_zero]
    cases ofCharsFrom position (d :: r) <;> rfl
  | case2 position first rest hblank ih =>
    have hposition : position + 1 + rest.length = position + (first :: rest).length := by
      rw [List.length_cons]
      omega
    rw [List.cons_append, ofCharsFrom_blank hblank, ofCharsFrom_blank hblank, ih, hposition]
  | case3 position first rest hblank hread =>
    have hread' : Lexeme.read? first (rest ++ d :: r) = none := by
      rw [h.readLexeme_append, hread]
    rw [List.cons_append, ofCharsFrom_bad hblank hread', ofCharsFrom_bad hblank hread]
    rfl
  | case4 position first rest hblank lexeme more hread ih =>
    have hread' : Lexeme.read? first (rest ++ d :: r) = some (lexeme, more) := by
      rw [h.readLexeme_append, hread]
    have hmore := Lexeme.read?_length hread
    have hdrop : (rest ++ d :: r).drop more = rest.drop more ++ d :: r :=
      List.drop_append_of_le_length hmore
    have hposition : position + 1 + more + (rest.drop more).length =
        position + (first :: rest).length := by
      rw [List.length_drop, List.length_cons]
      omega
    rw [List.cons_append, ofCharsFrom_lexeme hblank hread', ofCharsFrom_lexeme hblank hread,
      hdrop, ih, hposition]
    cases htail : ofCharsFrom (position + 1 + more) (rest.drop more) with
    | error fault => rfl
    | ok tokens =>
      have hne := ofCharsFrom_ne_nil htail
      obtain ⟨token, tokens, rfl⟩ := List.exists_cons_of_ne_nil hne
      cases ofCharsFrom (position + (first :: rest).length) (d :: r) <;> rfl

/-- Reading further on in a text shifts all positions. -/
theorem ofCharsFrom_add (offset position : Nat) (cs : List Char) :
    ofCharsFrom (offset + position) cs =
      match ofCharsFrom position cs with
      | .ok tokens => .ok (tokens.map fun token ↦ ⟨token.lexeme, offset + token.position⟩)
      | .error fault => .error ⟨offset + fault.position, fault.character⟩ := by
  induction position, cs using Token.ofCharsFrom.induct with
  | case1 position =>
    rw [ofCharsFrom_nil, ofCharsFrom_nil]
    rfl
  | case2 position first rest hblank ih =>
    rw [ofCharsFrom_blank hblank, ofCharsFrom_blank hblank, Nat.add_assoc, ih]
  | case3 position first rest hblank hread =>
    rw [ofCharsFrom_bad hblank hread, ofCharsFrom_bad hblank hread]
  | case4 position first rest hblank lexeme more hread ih =>
    rw [ofCharsFrom_lexeme hblank hread, ofCharsFrom_lexeme hblank hread, Nat.add_assoc offset,
      Nat.add_assoc offset, ih]
    cases ofCharsFrom (position + 1 + more) (rest.drop more) <;> rfl

/-- The tokens of a text write some lexemes, with an end after them. -/
theorem ofCharsFrom_writes {position : Nat} {cs : List Char} {tokens : List Token}
    (h : ofCharsFrom position cs = .ok tokens) :
    Grammar.Writes tokens (tokens.dropLast.map Token.lexeme) ∧ tokens.length ≤ cs.length + 1 := by
  induction position, cs using Token.ofCharsFrom.induct generalizing tokens with
  | case1 position =>
    rw [ofCharsFrom_nil] at h
    cases h
    exact ⟨⟨rfl, List.not_mem_nil⟩, Nat.le_refl 1⟩
  | case2 position first rest hblank ih =>
    rw [ofCharsFrom_blank hblank] at h
    obtain ⟨hwrites, hlength⟩ := ih h
    exact ⟨hwrites, Nat.le_succ_of_le hlength⟩
  | case3 position first rest hblank hread =>
    rw [ofCharsFrom_bad hblank hread] at h
    cases h
  | case4 position first rest hblank lexeme more hread ih =>
    rw [ofCharsFrom_lexeme hblank hread, map_eq_ok_iff] at h
    obtain ⟨others, hothers, rfl⟩ := h
    obtain ⟨⟨hlexemes, hfinish⟩, hlength⟩ := ih hothers
    have hne : lexeme ≠ .finish := Lexeme.ne_finish_of_read? hread
    have hcons : others ≠ [] := ofCharsFrom_ne_nil hothers
    rw [List.length_drop] at hlength
    refine ⟨⟨?_, ?_⟩, ?_⟩
    · rw [List.dropLast_cons_of_ne_nil hcons, List.map_cons, hlexemes]
      rfl
    · rw [List.dropLast_cons_of_ne_nil hcons, List.map_cons, List.mem_cons, not_or]
      exact ⟨Ne.symm hne, hfinish⟩
    · rw [List.length_cons, List.length_cons]
      omega

end Token

end Reckoner
