import Mathlib.Data.List.TakeWhile
import Reckoner.Proofs.Lexing.Separation

/-!
# The Lexemes of a Text

The tokens of a text without their positions and their end.  White space adds nothing to them, at
the ends of a text or between its lexemes, and a text with marks in it has the lexemes of its
parts, with the marks between them.
-/

namespace Reckoner

namespace Lexeme

/-- The lexemes of some tokens without the end, or the character of a fault. -/
def ofOutcome : Except BadCharacter (List Token) → Except Char (List Lexeme)
  | .ok tokens => .ok (tokens.dropLast.map Token.lexeme)
  | .error fault => .error fault.character

/-- The lexemes of a text, or the first character at which none starts. -/
def ofChars (cs : List Char) : Except Char (List Lexeme) := ofOutcome (Token.ofCharsFrom 0 cs)

variable {c d : Char} {mark : Lexeme}

theorem ofChars_eq (position : Nat) (cs : List Char) :
    ofChars cs = ofOutcome (Token.ofCharsFrom position cs) := by
  have hshift := Token.ofCharsFrom_add position 0 cs
  rw [Nat.add_zero] at hshift
  rw [hshift, ofChars]
  cases Token.ofCharsFrom 0 cs with
  | error fault => rfl
  | ok tokens =>
    simp only [ofOutcome, ← List.map_dropLast, List.map_map]
    rfl

theorem ofChars_nil : ofChars [] = .ok [] := by
  rw [ofChars, Token.ofCharsFrom_nil]
  rfl

/-! ## Separators -/

/-- The lexemes of a text do not depend on what comes after a separator. -/
theorem ofChars_append (h : Separates d) (l r : List Char) :
    ofChars (l ++ d :: r) =
      (ofChars l).bind fun before ↦ (ofChars (d :: r)).map (before ++ ·) := by
  rw [ofChars, Token.ofCharsFrom_append h, ofChars, ofChars_eq (0 + l.length) (d :: r)]
  cases Token.ofCharsFrom 0 l with
  | error fault => rfl
  | ok before =>
    rw [Except.bind]
    cases hright : Token.ofCharsFrom (0 + l.length) (d :: r) with
    | error fault => rfl
    | ok after =>
      have hne := Token.ofCharsFrom_ne_nil hright
      simp [Except.map, Except.bind, ofOutcome, List.dropLast_append_of_ne_nil hne]

theorem isAlpha_iff_toNat :
    c.isAlpha ↔ (65 ≤ c.toNat ∧ c.toNat ≤ 90) ∨ (97 ≤ c.toNat ∧ c.toNat ≤ 122) := by
  change (decide (65 ≤ c.val ∧ c.val ≤ 90) || (decide (97 ≤ c.val) && decide (c.val ≤ 122))) ↔ _
  simp [UInt32.le_iff_toNat_le]

theorem eq_underscore_iff_toNat : c = '_' ↔ c.toNat = 95 := Char.toNat_inj.symm

theorem continuesName_eq_false_of_blank (h : Text.isBlank c) : continuesName c = false := by
  rw [Bool.eq_false_iff, ne_eq, continuesName, Char.isAlphanum, Bool.or_eq_true, Bool.or_eq_true,
    isAlpha_iff_toNat, Char.isDigit_iff_toNat, beq_iff_eq, eq_underscore_iff_toNat]
  simp [Text.isBlank, Text.blankRanges] at h
  have hdigits : '0'.toNat = 48 ∧ '9'.toNat = 57 := ⟨rfl, rfl⟩
  omega

theorem separates_of_blank (h : Text.isBlank c) : Separates c := by
  refine ⟨continuesName_eq_false_of_blank h, ?_, ?_, ?_⟩ <;> rintro rfl <;>
    exact absurd h (by decide)

theorem ofChars_blank (h : Text.isBlank c) (r : List Char) : ofChars (c :: r) = ofChars r := by
  rw [ofChars, Token.ofCharsFrom_blank h, ofChars_eq 1]

theorem ofChars_mark (h : ofMark? c = some mark) (r : List Char) :
    ofChars (c :: r) = (ofChars r).map (mark :: ·) := by
  have hblank : ¬ Text.isBlank c := by
    unfold ofMark? at h
    split at h <;> first | decide | cases h
  have hread : read? c r = some (mark, 0) := by
    rw [read?, h]
  rw [ofChars, Token.ofCharsFrom_lexeme hblank hread, ofChars_eq 1, List.drop_zero]
  cases htail : Token.ofCharsFrom (0 + 1 + 0) r with
  | error fault => rfl
  | ok tokens =>
    have hne := Token.ofCharsFrom_ne_nil htail
    simp [Except.map, ofOutcome, List.dropLast_cons_of_ne_nil hne]

section

variable {l r s : List Char} {before after lexemes : List Lexeme}

theorem ofChars_append_eq_ok (h : Separates d) (hl : ofChars l = .ok before)
    (hr : ofChars (d :: r) = .ok after) : ofChars (l ++ d :: r) = .ok (before ++ after) := by
  rw [ofChars_append h, hl, hr]
  rfl

theorem ofChars_mark_eq_ok (h : ofMark? c = some mark) (hr : ofChars r = .ok after) :
    ofChars (c :: r) = .ok (mark :: after) := by
  rw [ofChars_mark h, hr]
  rfl

/-- Everything between two brackets. -/
theorem ofChars_group (hs : ofChars s = .ok lexemes) :
    ofChars ('(' :: (s ++ [')'])) = .ok (.opening :: (lexemes ++ [.closing])) := by
  have hclosing : ofChars [')'] = .ok [.closing] := ofChars_mark_eq_ok rfl ofChars_nil
  exact ofChars_mark_eq_ok rfl (ofChars_append_eq_ok (by decide) hs hclosing)

end

theorem ofChars_bracket {s : List Char} {lexemes : List Lexeme} (hs : ofChars s = .ok lexemes)
    (u w : List Char) :
    ofChars (u ++ '(' :: (s ++ ')' :: w)) =
      (ofChars u).bind fun before ↦ (ofChars w).map fun after ↦
        before ++ .opening :: (lexemes ++ .closing :: after) := by
  have hopening : Separates '(' := by decide
  have hclosing : Separates ')' := by decide
  rw [ofChars_append hopening, ofChars_mark rfl, ofChars_append hclosing, hs, ofChars_mark rfl]
  cases ofChars u with
  | error c => rfl
  | ok before =>
    cases ofChars w <;> rfl

/-! ## White space at the ends -/

theorem ofChars_blanks_append {blanks : List Char} (h : ∀ c ∈ blanks, Text.isBlank c)
    (r : List Char) : ofChars (blanks ++ r) = ofChars r := by
  induction blanks with
  | nil => rfl
  | cons c blanks ih =>
    have hblanks : ∀ c' ∈ blanks, Text.isBlank c' := fun c' hc' ↦ h c' (List.mem_cons_of_mem c hc')
    rw [List.cons_append, ofChars_blank (h c List.mem_cons_self), ih hblanks]

theorem ofChars_blanks {blanks : List Char} (h : ∀ c ∈ blanks, Text.isBlank c) :
    ofChars blanks = .ok [] := by
  rw [← List.append_nil blanks, ofChars_blanks_append h, ofChars_nil]

/-- A text with a lexeme is not blank. -/
theorem not_blank_of_ofChars {cs : List Char} {lexemes : List Lexeme}
    (h : ofChars cs = .ok lexemes) (hne : lexemes ≠ []) : ¬ ∀ c ∈ cs, Text.isBlank c := by
  intro hblank
  cases (ofChars_blanks hblank).symm.trans h
  exact hne rfl

theorem ofChars_append_blanks {blanks : List Char} (h : ∀ c ∈ blanks, Text.isBlank c)
    (l : List Char) : ofChars (l ++ blanks) = ofChars l := by
  cases blanks with
  | nil => rw [List.append_nil]
  | cons c blanks =>
    rw [ofChars_append (separates_of_blank (h c List.mem_cons_self)), ofChars_blanks h]
    cases ofChars l <;> simp [Except.map, Except.bind]

end Lexeme

/-- A trimmed text with the white space that was around it. -/
theorem Text.exists_eq_trim (cs : List Char) : ∃ before after : List Char,
    cs = before ++ Text.trim cs ++ after ∧ (∀ c ∈ before, Text.isBlank c) ∧
      ∀ c ∈ after, Text.isBlank c := by
  refine ⟨cs.takeWhile Text.isBlank,
    (((cs.dropWhile Text.isBlank).reverse).takeWhile Text.isBlank).reverse, ?_, ?_, ?_⟩
  · rw [Text.trim, List.append_assoc, ← List.reverse_append, List.takeWhile_append_dropWhile,
      List.reverse_reverse, List.takeWhile_append_dropWhile]
  · exact fun c hc ↦ List.mem_takeWhile_imp hc
  · intro c hc
    exact List.mem_takeWhile_imp (List.mem_reverse.mp hc)

theorem Lexeme.ofChars_trim (cs : List Char) :
    Lexeme.ofChars (Text.trim cs) = Lexeme.ofChars cs := by
  obtain ⟨before, after, hcs, hbefore, hafter⟩ := Text.exists_eq_trim cs
  conv => rhs; rw [hcs]
  rw [List.append_assoc, ofChars_blanks_append hbefore, ofChars_append_blanks hafter]

end Reckoner
