import Reckoner.Proofs.Lexing.Numbers

/-!
# Spelling

How lexemes are written: the eight marks, names of ASCII letters, digits and underscores that do not
begin with a digit, and numbers.  From every text the scanner takes the longest spelling that the
text begins with, and it finds none only where there is none; so a spelling that stands alone is
read as the one lexeme that it spells.

The scan of a text is the walk that this describes, past white space and longest lexemes.  It ends
at the end of the text, with its lexemes for tokens, or at the first character at which no lexeme
starts, which is the fault.
-/

namespace Reckoner

/-- The characters spell the lexeme. -/
inductive Spells : List Char → Lexeme → Prop where
  | plus : Spells ['+'] .plus
  | minus : Spells ['-'] .minus
  | star : Spells ['*'] .star
  | slash : Spells ['/'] .slash
  | caret : Spells ['^'] .caret
  | opening : Spells ['('] .opening
  | closing : Spells [')'] .closing
  | comma : Spells [','] .comma
  /-- A letter or an underscore, then any number of letters, digits and underscores. -/
  | name {first : Char} {rest : List Char} (hfirst : Lexeme.startsName first)
      (hrest : ∀ c ∈ rest, Lexeme.continuesName c) :
      Spells (first :: rest) (.name (.ofList (first :: rest)))
  /-- Digits with or without a point and further digits, or a point and digits, then an exponent or
  none. -/
  | number {n : NumberText} (h : n.Valid) : Spells n.chars (.number n.value)

namespace Lexeme

variable {first : Char} {rest w : List Char} {lexeme : Lexeme} {more : Nat}

/-! ## What is read -/

theorem spells_of_ofMark? (h : ofMark? first = some lexeme) : Spells [first] lexeme := by
  unfold ofMark? at h
  split at h <;> cases h <;> constructor

theorem ofMark?_eq_none_of_startsName (h : startsName first) : ofMark? first = none := by
  unfold ofMark?
  split <;> first | rfl | exact absurd h (by decide)

theorem read?_name (h : startsName first) (rest : List Char) :
    read? first rest =
      some (.name (.ofList (first :: rest.takeWhile continuesName)),
        (rest.takeWhile continuesName).length) := by
  rw [read?, ofMark?_eq_none_of_startsName h]
  exact if_pos h

theorem take_length_takeWhile {α : Type} (p : α → Bool) (l : List α) :
    l.take (l.takeWhile p).length = l.takeWhile p :=
  (List.prefix_iff_eq_take.mp (List.takeWhile_prefix p)).symm

/-- What is read is spelled by the characters that it takes. -/
theorem spells_of_read? (h : read? first rest = some (lexeme, more)) :
    Spells (first :: rest.take more) lexeme := by
  unfold read? at h
  split at h
  case h_1 mark hmark =>
    cases h
    exact spells_of_ofMark? hmark
  case h_2 =>
    split at h
    case isTrue hname =>
      cases h
      rw [take_length_takeWhile]
      exact .name hname fun c hc ↦ List.mem_takeWhile_imp hc
    case isFalse =>
      split at h
      case isFalse => cases h
      case isTrue hstarts =>
        cases h
        have hvalid := NumberText.read_valid hstarts
        have htake := List.prefix_iff_eq_take.mp (NumberText.chars_prefix (first :: rest))
        obtain ⟨k, hk⟩ := Nat.exists_eq_add_one_of_ne_zero
          (List.length_eq_zero_iff.not.mpr hvalid.chars_ne_nil)
        have hspells := Spells.number hvalid
        rw [htake, hk, List.take_succ_cons] at hspells
        rw [hk, Nat.add_sub_cancel]
        exact hspells

/-- From a text that begins with a spelling, at least this spelling is taken. -/
theorem exists_read?_of_spells (h : Spells w lexeme) (hw : w <+: first :: rest) :
    ∃ lexeme' more, read? first rest = some (lexeme', more) ∧ w.length ≤ more + 1 := by
  have hmark : ∀ {c mark}, w = [c] → ofMark? c = some mark →
      ∃ lexeme' more, read? first rest = some (lexeme', more) ∧ w.length ≤ more + 1 := by
    rintro c mark rfl hmark
    obtain ⟨rfl, -⟩ := List.cons_prefix_cons.mp hw
    exact ⟨mark, 0, by rw [read?, hmark], Nat.le_refl 1⟩
  cases h with
  | plus | minus | star | slash | caret | opening | closing | comma => exact hmark rfl rfl
  | @name c more hfirst hmore =>
    obtain ⟨rfl, hprefix⟩ := List.cons_prefix_cons.mp hw
    refine ⟨_, _, read?_name hfirst rest, ?_⟩
    obtain ⟨r, rfl⟩ := hprefix
    rw [List.takeWhile_append_of_pos hmore, List.length_cons, List.length_append]
    omega
  | @number n hvalid =>
    obtain ⟨r, hr⟩ := hw
    have hstarts := NumberText.starts_append hvalid.starts_chars r
    have hlength := hvalid.length_le_read r
    rw [hr] at hstarts hlength
    exact ⟨_, _, read?_number hstarts, by omega⟩

/-- A spelling that stands alone is read as what it spells. -/
theorem read?_of_spells (h : Spells (first :: rest) lexeme) :
    read? first rest = some (lexeme, rest.length) := by
  generalize hw : first :: rest = w at h
  cases h with
  | plus | minus | star | slash | caret | opening | closing | comma =>
    cases hw
    rfl
  | name hfirst hmore =>
    cases hw
    rw [read?_name hfirst, List.takeWhile_eq_self_iff.mpr hmore]
  | @number n hvalid =>
    have hstarts := hvalid.starts_chars
    have hread := hvalid.read_chars
    rw [← hw] at hstarts hread
    rw [read?_number hstarts, hread, ← hw, List.length_cons, Nat.add_sub_cancel]

theorem continuesName_of_startsName (h : startsName first) : continuesName first := by
  rw [startsName, Bool.or_eq_true] at h
  rw [continuesName, Char.isAlphanum, Bool.or_eq_true, Bool.or_eq_true]
  exact h.imp_left .inl

end Lexeme

/-! ## Longest spellings -/

/-- The longest spelling at the beginning of a text, and the lexeme that it spells. -/
structure Longest (cs w : List Char) (lexeme : Lexeme) : Prop where
  spells : Spells w lexeme
  begins : w <+: cs
  longest : ∀ w' lexeme', Spells w' lexeme' → w' <+: cs → w'.length ≤ w.length

/-- No spelling is at the beginning of a text. -/
def NoLexemeStarts (cs : List Char) : Prop := ∀ w lexeme, Spells w lexeme → ¬ w <+: cs

section

variable {first : Char} {rest w : List Char} {lexeme : Lexeme} {more : Nat}

theorem Spells.exists_cons (h : Spells w lexeme) : ∃ first rest, w = first :: rest := by
  cases h with
  | number hvalid => exact List.exists_cons_of_ne_nil hvalid.chars_ne_nil
  | _ => exact ⟨_, _, rfl⟩

theorem Spells.not_blank (h : Spells (first :: rest) lexeme) : ¬ Text.isBlank first := by
  generalize hw : first :: rest = w at h
  cases h with
  | plus | minus | star | slash | caret | opening | closing | comma =>
    cases hw
    decide
  | name hfirst hmore =>
    cases hw
    intro hblank
    have hcontinues := Lexeme.continuesName_of_startsName hfirst
    rw [Lexeme.continuesName_eq_false_of_blank hblank] at hcontinues
    cases hcontinues
  | number hvalid =>
    have hstarts := hvalid.starts_chars
    rw [← hw] at hstarts
    rcases NumberText.first_of_starts hstarts with rfl | hdigit
    · decide
    · exact Lexeme.not_isBlank_of_isDigit hdigit

/-- A spelling that stands alone is one lexeme. -/
theorem Spells.ofChars (h : Spells w lexeme) : Lexeme.ofChars w = .ok [lexeme] := by
  obtain ⟨first, rest, rfl⟩ := h.exists_cons
  rw [Lexeme.ofChars, Token.ofCharsFrom_lexeme h.not_blank (Lexeme.read?_of_spells h),
    List.drop_length, Token.ofCharsFrom_nil]
  rfl

theorem longest_of_read? (h : Lexeme.read? first rest = some (lexeme, more)) :
    Longest (first :: rest) (first :: rest.take more) lexeme := by
  refine ⟨Lexeme.spells_of_read? h, List.cons_prefix_cons.mpr ⟨rfl, List.take_prefix more rest⟩, ?_⟩
  intro w lexeme' hw hbegins
  obtain ⟨_, _, hread, hlength⟩ := Lexeme.exists_read?_of_spells hw hbegins
  rw [h] at hread
  cases hread
  rw [List.length_cons, List.length_take_of_le (Lexeme.read?_length h)]
  exact hlength

/-- Of the longest spelling there is one only, and it spells one lexeme. -/
theorem Longest.read? (h : Longest (first :: rest) w lexeme) :
    ∃ more, w = first :: rest.take more ∧ w.length = more + 1 ∧
      Lexeme.read? first rest = some (lexeme, more) := by
  obtain ⟨lexeme', more, hread, hlength⟩ := Lexeme.exists_read?_of_spells h.spells h.begins
  have htaken := longest_of_read? hread
  have hmore := Lexeme.read?_length hread
  have hle := h.longest _ _ htaken.spells htaken.begins
  rw [List.length_cons, List.length_take_of_le hmore] at hle
  have hw : w = first :: rest.take more := by
    rw [List.prefix_iff_eq_take.mp h.begins, Nat.le_antisymm hlength hle, List.take_succ_cons]
  have hsame := Lexeme.read?_of_spells (hw ▸ h.spells)
  rw [Lexeme.read?_of_spells htaken.spells] at hsame
  cases hsame
  exact ⟨more, hw, Nat.le_antisymm hlength hle, hread⟩

theorem noLexemeStarts_iff : NoLexemeStarts (first :: rest) ↔ Lexeme.read? first rest = none := by
  constructor
  · intro h
    cases hread : Lexeme.read? first rest with
    | none => rfl
    | some found =>
      obtain ⟨lexeme, more⟩ := found
      have hlongest := longest_of_read? hread
      exact absurd hlongest.begins (h _ _ hlongest.spells)
  · intro hread w lexeme hw hbegins
    obtain ⟨_, _, hsome, -⟩ := Lexeme.exists_read?_of_spells hw hbegins
    rw [hread] at hsome
    cases hsome

end

/-! ## The scan -/

/-- The scan of a text has passed these tokens and stands at the offset.  White space is passed, and
elsewhere the longest spelling is taken. -/
inductive Scans (cs : List Char) : List Token → Nat → Prop where
  | start : Scans cs [] 0
  | blank {tokens : List Token} {position : Nat} {c : Char} (h : Scans cs tokens position)
      (hc : cs[position]? = some c) (hblank : Text.isBlank c) : Scans cs tokens (position + 1)
  | lexeme {tokens : List Token} {position : Nat} {c : Char} {w : List Char} {lexeme : Lexeme}
      (h : Scans cs tokens position) (hc : cs[position]? = some c) (hblank : ¬ Text.isBlank c)
      (hlongest : Longest (cs.drop position) w lexeme) :
      Scans cs (tokens ++ [⟨lexeme, position⟩]) (position + w.length)

/-- The scan stands at a character with which no lexeme starts. -/
structure Stuck (cs : List Char) (position : Nat) (c : Char) : Prop where
  scans : ∃ tokens, Scans cs tokens position
  here : cs[position]? = some c
  not_blank : ¬ Text.isBlank c
  noLexeme : NoLexemeStarts (cs.drop position)

section

variable {cs : List Char} {tokens : List Token} {position : Nat} {c : Char}

theorem drop_eq_cons (h : cs[position]? = some c) :
    position < cs.length ∧ cs.drop position = c :: cs.drop (position + 1) := by
  obtain ⟨hlt, rfl⟩ := List.getElem?_eq_some_iff.mp h
  exact ⟨hlt, List.drop_eq_getElem_cons hlt⟩

/-- The tokens of the text are those that the scan has passed and those of the rest. -/
theorem Scans.ofCharsFrom (h : Scans cs tokens position) :
    Token.ofCharsFrom 0 cs = (Token.ofCharsFrom position (cs.drop position)).map (tokens ++ ·) := by
  induction h with
  | start =>
    rw [List.drop_zero]
    cases Token.ofCharsFrom 0 cs <;> rfl
  | @blank tokens position c h hc hblank ih =>
    rw [ih, (drop_eq_cons hc).2, Token.ofCharsFrom_blank hblank]
  | @lexeme tokens position c w lexeme h hc hblank hlongest ih =>
    obtain ⟨-, hdrop⟩ := drop_eq_cons hc
    rw [hdrop] at hlongest
    obtain ⟨more, hw, hlength, hread⟩ := hlongest.read?
    have hposition : position + 1 + more = position + w.length := by omega
    rw [ih, hdrop, Token.ofCharsFrom_lexeme hblank hread, List.drop_drop, hposition]
    cases Token.ofCharsFrom (position + w.length) (cs.drop (position + w.length)) with
    | error fault => rfl
    | ok rest => simp [Except.map]

theorem Scans.le_length (h : Scans cs tokens position) : position ≤ cs.length := by
  induction h with
  | start => exact Nat.zero_le _
  | blank h hc hblank ih => exact (drop_eq_cons hc).1
  | @lexeme tokens position c w lexeme h hc hblank hlongest ih =>
    have hlength := hlongest.begins.length_le
    rw [List.length_drop] at hlength
    omega

/-- The tokens begin one after the other, and before the offset. -/
theorem Scans.increasing (h : Scans cs tokens position) :
    (tokens.map Token.position ++ [position]).Pairwise (· < ·) := by
  induction h with
  | start => exact List.pairwise_singleton _ _
  | @blank tokens position c h hc hblank ih =>
    simp only [List.pairwise_append, List.mem_singleton, forall_eq] at ih ⊢
    exact ⟨ih.1, List.pairwise_singleton _ _, fun p hp ↦ Nat.lt_succ_of_lt (ih.2.2 p hp)⟩
  | @lexeme tokens position c w lexeme h hc hblank hlongest ih =>
    obtain ⟨first, rest, rfl⟩ := hlongest.spells.exists_cons
    rw [List.map_append, List.map_singleton, List.pairwise_append]
    refine ⟨ih, List.pairwise_singleton _ _, fun p hp q hq ↦ ?_⟩
    rw [List.mem_singleton.mp hq, List.length_cons]
    rcases List.mem_append.mp hp with hbefore | hhere
    · have hlt := (List.pairwise_append.mp ih).2.2 p hbefore position (List.mem_singleton_self _)
      omega
    · rw [List.mem_singleton.mp hhere]
      exact Nat.lt_add_of_pos_right (Nat.succ_pos _)

/-- The scan gets to the end of the text or is stuck. -/
theorem Scans.ends {tokens : List Token} {position : Nat} (h : Scans cs tokens position) :
    (∃ tokens, Scans cs tokens cs.length) ∨ ∃ position c, Stuck cs position c := by
  cases hc : cs[position]? with
  | none =>
    have hend : position = cs.length :=
      Nat.le_antisymm h.le_length (List.getElem?_eq_none_iff.mp hc)
    exact .inl ⟨tokens, hend ▸ h⟩
  | some c =>
    obtain ⟨hlt, hdrop⟩ := drop_eq_cons hc
    by_cases hblank : Text.isBlank c
    · exact (Scans.blank h hc hblank).ends
    · cases hread : Lexeme.read? c (cs.drop (position + 1)) with
      | none =>
        exact .inr ⟨position, c, ⟨tokens, h⟩, hc, hblank, hdrop ▸ noLexemeStarts_iff.mpr hread⟩
      | some found =>
        obtain ⟨lexeme, more⟩ := found
        have hlongest := longest_of_read? hread
        rw [← hdrop] at hlongest
        exact (Scans.lexeme h hc hblank hlongest).ends
termination_by cs.length - position
decreasing_by
  · omega
  · rw [List.length_cons]
    omega

end

/-- The tokens of a text are those of its scan: all that the scan has passed at the end of the text,
and then the end, each beginning after the one before; or the fault is the character at which the
scan is stuck.  One of the two comes.  No lexeme is read past the end of the text, and what is read
as a number is spelled as one. -/
theorem ofText_eq_scan (text : String) :
    (∀ tokens, Scans text.toList tokens text.length →
      Token.ofText text = .ok (tokens ++ [Token.mk .finish text.length]) ∧
        ((tokens ++ [Token.mk .finish text.length]).map Token.position).Pairwise (· < ·)) ∧
    (∀ position c, Stuck text.toList position c → Token.ofText text = .error ⟨position, c⟩) ∧
    ((∃ tokens, Scans text.toList tokens text.length) ∨ ∃ position c, Stuck text.toList position c) ∧
    (∀ first rest lexeme more, Lexeme.read? first rest = some (lexeme, more) → more ≤ rest.length) ∧
    ∀ cs, NumberText.starts cs → (NumberText.read cs).Valid := by
  rw [← String.length_toList]
  refine ⟨?_, ?_, ?_, ?_, ?_⟩
  · intro tokens h
    constructor
    · rw [Token.ofText, h.ofCharsFrom, List.drop_length, Token.ofCharsFrom_nil]
      rfl
    · rw [List.map_append]
      exact h.increasing
  · rintro position c ⟨⟨tokens, h⟩, hc, hblank, hlexeme⟩
    obtain ⟨-, hdrop⟩ := drop_eq_cons hc
    rw [hdrop, noLexemeStarts_iff] at hlexeme
    rw [Token.ofText, h.ofCharsFrom, hdrop, Token.ofCharsFrom_bad hblank hlexeme]
    rfl
  · exact Scans.start.ends
  · exact fun _ _ _ _ ↦ Lexeme.read?_length
  · exact fun _ ↦ NumberText.read_valid

/-- An exponent without digits is a name and a mark. -/
example : (Token.ofText "2e+.5").map (List.map Token.position) = .ok [0, 1, 2, 3, 5] := by
  decide +kernel

end Reckoner
