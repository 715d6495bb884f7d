import Reckoner.Proofs.Lexing.Spelling
import Reckoner.Proofs.Safety.Checked

/-!
# Scanning by Offsets

The scanner as it works on an array: it moves an offset over the text, looks at the character there
and at those after it, and cuts out the names and the numbers between two offsets.  All its steps
are checked.  No text makes it break off, and it gives the tokens of the text.
-/

namespace Reckoner

theorem ExponentText.read?_of_letter {letter : Char} (h : letter = 'e' ∨ letter = 'E')
    (rest : List Char) :
    read? (letter :: rest) =
      match rest with
      | '+' :: digits => afterMark? [letter, '+'] false digits
      | '-' :: digits => afterMark? [letter, '-'] true digits
      | digits => afterMark? [letter] false digits := if_pos h

namespace Checked

/-! ## The scanner -/

section

variable (largest : Nat) (chars : List Char)

/-- The first offset from `i` on at which the character is not as asked. -/
def skipWhile (p : Char → Bool) : (rounds : Nat) → (i : Nat) → Checked Nat
  | 0, _ => .error .endless
  | rounds + 1, i =>
    if i < chars.length then do
      let c ← read chars i
      if p c then do
        let next ← add largest i 1
        skipWhile p rounds next
      else .ok i
    else .ok i

variable (patience : Nat)

def skipDigits (i : Nat) : Checked Nat := skipWhile largest chars Char.isDigit patience i

/-- The offset after the point at `i` and the digits after it, if there is a point. -/
def skipFraction (i : Nat) : Checked Nat :=
  if chars[i]? = some '.' then do
    let next ← add largest i 1
    skipDigits largest chars patience next
  else .ok i

def skipSign (i : Nat) : Checked Nat :=
  if chars[i]? = some '+' ∨ chars[i]? = some '-' then add largest i 1 else .ok i

def skipExponent (i : Nat) : Checked Nat :=
  if chars[i]? = some 'e' ∨ chars[i]? = some 'E' then do
    let next ← add largest i 1
    let j ← skipSign largest chars next
    if chars[j]?.any Char.isDigit then skipDigits largest chars patience j else .ok i
  else .ok i

def skipNumber (i : Nat) : Checked Nat := do
  let i ← skipDigits largest chars patience i
  let i ← skipFraction largest chars patience i
  skipExponent largest chars patience i

/-- A number begins at `i`, where the character is `c`. -/
def startsNumber (c : Char) (i : Nat) : Checked Bool :=
  if c.isDigit then .ok true
  else if c = '.' then do
    let next ← add largest i 1
    .ok (chars[next]?.any Char.isDigit)
  else .ok false

/-- The value of a text that is a number from end to end. -/
def parseNumber (text : List Char) : Option Binary64 :=
  let number := NumberText.read text
  if NumberText.starts text ∧ number.chars = text then some number.value else none

def scanLexeme (i : Nat) : Checked (Option (Lexeme × Nat)) := do
  let c ← read chars i
  match Lexeme.ofMark? c with
  | some mark => do
    let next ← add largest i 1
    .ok (some (mark, next))
  | none =>
    if Lexeme.startsName c then do
      let stop ← skipWhile largest chars Lexeme.continuesName patience i
      let name ← slice chars i stop
      .ok (some (.name (.ofList name), stop))
    else do
      let starts ← startsNumber largest chars c i
      if starts then do
        let stop ← skipNumber largest chars patience i
        let text ← slice chars i stop
        .ok ((parseNumber text).map fun value ↦ (.number value, stop))
      else .ok none

/-- The tokens from `i` on, after those that there are already. -/
def scan : (rounds : Nat) → (i : Nat) → List Token → Checked (Except BadCharacter (List Token))
  | 0, _, _ => .error .endless
  | rounds + 1, i, tokens =>
    if i < chars.length then do
      let c ← read chars i
      if Text.isBlank c then do
        let next ← add largest i 1
        scan rounds next tokens
      else
        match ← scanLexeme largest chars patience i with
        | none => .ok (.error ⟨i, c⟩)
        | some (lexeme, next) => scan rounds next (tokens ++ [⟨lexeme, i⟩])
    else .ok (.ok (tokens ++ [⟨.finish, chars.length⟩]))

end

def tokens (largest patience : Nat) (text : String) : Checked (Except BadCharacter (List Token)) :=
  scan largest text.toList patience patience 0 []

/-! ## Its steps -/

/-- A number reads back as its value. -/
theorem parseNumber_eq {cs : List Char} (h : NumberText.starts cs) :
    parseNumber (NumberText.read cs).chars = some (NumberText.read cs).value := by
  have hvalid := NumberText.read_valid h
  rw [parseNumber, hvalid.read_chars]
  exact if_pos ⟨hvalid.starts_chars, rfl⟩

section

variable {largest patience : Nat} {chars : List Char} (hlargest : chars.length ≤ largest)

include hlargest

theorem skipWhile_eq {p : Char → Bool} {rounds i : Nat} (hi : i ≤ chars.length)
    (hrounds : chars.length < i + rounds) :
    skipWhile largest chars p rounds i = .ok (i + ((chars.drop i).takeWhile p).length) := by
  induction rounds generalizing i with
  | zero => omega
  | succ rounds ih =>
    rw [skipWhile]
    cases hdrop : chars.drop i with
    | nil =>
      rw [if_neg (Nat.not_lt.mpr (List.drop_eq_nil_iff.mp hdrop))]
      rfl
    | cons c rest =>
      have hlength := length_of_drop_eq hdrop
      rw [if_pos (by omega), read_eq_ok (getElem?_of_drop_eq hdrop), ok_bind]
      by_cases hc : p c
      · rw [if_pos hc, add_eq_ok (by omega), ok_bind, List.takeWhile_cons_of_pos hc,
          List.length_cons, ih (by omega) (by omega), drop_succ_of_drop_eq hdrop]
        congr 1
        omega
      · rw [if_neg hc, List.takeWhile_cons_of_neg hc]
        rfl

variable (hpatience : chars.length < patience)

include hpatience

theorem skipDigits_eq {i : Nat} (hi : i ≤ chars.length) :
    skipDigits largest chars patience i =
      .ok (i + ((chars.drop i).takeWhile Char.isDigit).length) :=
  skipWhile_eq hlargest hi (by omega)

/-- The digits of an exponent after its mark. -/
theorem skipExponentDigits_eq {i : Nat} {digits : List Char} (mark : List Char) (negative : Bool)
    (hmark : chars.drop i = mark ++ digits) (hi : i ≤ chars.length) :
    (if chars[i + mark.length]?.any Char.isDigit then
      skipDigits largest chars patience (i + mark.length) else .ok i) =
      .ok (i + ((ExponentText.afterMark? mark negative digits).elim []
        ExponentText.chars).length) := by
  have hdigits := drop_of_drop_eq_append hmark
  rw [skipDigits_eq hlargest hpatience (add_length_le_of_drop_eq hmark hi), hdigits,
    ExponentText.afterMark?]
  cases digits with
  | nil =>
    rw [getElem?_of_drop_eq_nil hdigits]
    rfl
  | cons c rest =>
    rw [getElem?_of_drop_eq hdigits, Option.any_some]
    by_cases hc : c.isDigit
    · rw [if_pos hc, List.takeWhile_cons_of_pos hc, if_neg (List.cons_ne_nil _ _),
        Option.elim_some, ExponentText.chars, List.length_append, Nat.add_assoc]
    · rw [if_neg hc, List.takeWhile_cons_of_neg hc]
      rfl

theorem skipExponent_eq {i : Nat} (hi : i ≤ chars.length) :
    skipExponent largest chars patience i =
      .ok (i + ((ExponentText.read? (chars.drop i)).elim [] ExponentText.chars).length) := by
  rw [skipExponent]
  cases hdrop : chars.drop i with
  | nil =>
    rw [getElem?_of_drop_eq_nil hdrop]
    rfl
  | cons letter rest =>
    have hlength := length_of_drop_eq hdrop
    have hrest := drop_succ_of_drop_eq hdrop
    rw [getElem?_of_drop_eq hdrop]
    simp only [Option.some.injEq]
    by_cases hletter : letter = 'e' ∨ letter = 'E'
    · rw [if_pos hletter, add_eq_ok (by omega), ok_bind, ExponentText.read?_of_letter hletter]
      split
      case h_1 digits =>
        have hsign := getElem?_of_drop_eq hrest
        rw [List.length_cons] at hlength
        rw [skipSign, if_pos (.inl hsign), add_eq_ok (by omega), ok_bind]
        exact skipExponentDigits_eq hlargest hpatience [letter, '+'] false hdrop hi
      case h_2 digits =>
        have hsign := getElem?_of_drop_eq hrest
        rw [List.length_cons] at hlength
        rw [skipSign, if_pos (.inr hsign), add_eq_ok (by omega), ok_bind]
        exact skipExponentDigits_eq hlargest hpatience [letter, '-'] true hdrop hi
      case h_3 hplus hminus =>
        have hsign : ¬ (chars[i + 1]? = some '+' ∨ chars[i + 1]? = some '-') := by
          rw [← List.head?_drop, hrest, List.head?_eq_some_iff, List.head?_eq_some_iff]
          rintro (⟨digits, h⟩ | ⟨digits, h⟩)
          · exact hplus digits h
          · exact hminus digits h
        rw [skipSign, if_neg hsign, ok_bind]
        exact skipExponentDigits_eq hlargest hpatience [letter] false hdrop hi
    · have hnone : ExponentText.read? (letter :: rest) = none := if_neg hletter
      rw [if_neg hletter, hnone]
      rfl

theorem skipNumber_eq {i : Nat} (hi : i ≤ chars.length) :
    skipNumber largest chars patience i =
      .ok (i + (NumberText.read (chars.drop i)).chars.length) := by
  have hsplit := (List.takeWhile_append_dropWhile (p := Char.isDigit) (l := chars.drop i)).symm
  have hwhole := add_length_le_of_drop_eq hsplit hi
  have hdrop := drop_of_drop_eq_append hsplit
  rw [skipNumber, skipDigits_eq hlargest hpatience hi, ok_bind]
  unfold NumberText.read
  split
  case h_1 rest hrest =>
    rw [hrest] at hdrop
    have hsplit' := (List.takeWhile_append_dropWhile (p := Char.isDigit) (l := rest)).symm
    have hlength := length_of_drop_eq hdrop
    rw [← drop_succ_of_drop_eq hdrop] at hsplit'
    have hfraction := add_length_le_of_drop_eq hsplit' (by omega)
    rw [skipFraction, if_pos (getElem?_of_drop_eq hdrop), add_eq_ok (by omega), ok_bind,
      skipDigits_eq hlargest hpatience (by omega), ok_bind,
      skipExponent_eq hlargest hpatience hfraction, drop_of_drop_eq_append hsplit',
      drop_succ_of_drop_eq hdrop]
    simp only [NumberText.chars, Option.elim_some, List.length_append, List.length_cons]
    congr 1
    omega
  case h_2 hpoint =>
    have hnone : ¬ chars[i + ((chars.drop i).takeWhile Char.isDigit).length]? = some '.' := by
      rw [← List.head?_drop, hdrop, List.head?_eq_some_iff]
      rintro ⟨rest, hrest⟩
      exact hpoint rest hrest
    rw [skipFraction, if_neg hnone, ok_bind, skipExponent_eq hlargest hpatience hwhole, hdrop]
    simp only [NumberText.chars, Option.elim_none, List.length_append, List.length_nil]
    congr 1
    omega

omit hpatience in
theorem startsNumber_eq {i : Nat} {c : Char} {rest : List Char} (hdrop : chars.drop i = c :: rest) :
    startsNumber largest chars c i = .ok (NumberText.starts (c :: rest)) := by
  have hlength := length_of_drop_eq hdrop
  rw [startsNumber]
  by_cases hdigit : c.isDigit
  · rw [if_pos hdigit, NumberText.starts_of_isDigit hdigit]
  · rw [if_neg hdigit]
    by_cases hpoint : c = '.'
    · subst hpoint
      rw [if_pos rfl, add_eq_ok (by omega), ok_bind, ← List.head?_drop, drop_succ_of_drop_eq hdrop]
      cases rest <;> rfl
    · rw [if_neg hpoint]
      unfold NumberText.starts
      split
      case h_1 h => cases h; exact absurd rfl hpoint
      case h_2 h => cases h; rw [Bool.eq_false_iff.mpr hdigit]
      case h_3 h => cases h

theorem scanLexeme_eq {i : Nat} {first : Char} {rest : List Char}
    (hdrop : chars.drop i = first :: rest) :
    scanLexeme largest chars patience i =
      .ok ((Lexeme.read? first rest).map fun (lexeme, more) ↦ (lexeme, i + 1 + more)) := by
  have hlength := length_of_drop_eq hdrop
  rw [scanLexeme, read_eq_ok (getElem?_of_drop_eq hdrop)]
  simp only [ok_bind]
  cases hmark : Lexeme.ofMark? first with
  | some mark =>
    rw [Lexeme.read?, hmark, add_eq_ok (by omega)]
    rfl
  | none =>
    by_cases hname : Lexeme.startsName first
    · have htake : (first :: rest).takeWhile Lexeme.continuesName =
          first :: rest.takeWhile Lexeme.continuesName :=
        List.takeWhile_cons_of_pos (Lexeme.continuesName_of_startsName hname)
      have hprefix := (List.takeWhile_prefix Lexeme.continuesName (l := rest)).length_le
      simp only [if_pos hname, Lexeme.read?_name hname]
      rw [skipWhile_eq hlargest (by omega) (by omega), hdrop, htake, List.length_cons]
      rw [ok_bind, slice_eq_ok (by omega) (by omega), hdrop, Nat.add_sub_cancel_left,
        List.take_succ_cons, Lexeme.take_length_takeWhile, ok_bind, Option.map_some]
      congr 3
      omega
    · simp only [if_neg hname]
      rw [startsNumber_eq hlargest hdrop, ok_bind]
      by_cases hnumber : NumberText.starts (first :: rest)
      · have hprefix := NumberText.chars_prefix (first :: rest)
        have hbound := hprefix.length_le
        have hpos := List.length_pos_iff.mpr (NumberText.read_valid hnumber).chars_ne_nil
        rw [List.length_cons] at hbound
        rw [if_pos hnumber, Lexeme.read?_number hnumber,
          skipNumber_eq hlargest hpatience (by omega), hdrop, ok_bind,
          slice_eq_ok (by omega) (by omega), hdrop, Nat.add_sub_cancel_left,
          ← List.prefix_iff_eq_take.mp hprefix, ok_bind, parseNumber_eq hnumber,
          Option.map_some, Option.map_some]
        congr 3
        omega
      · have hnone : Lexeme.read? first rest = none := by
          simp only [Lexeme.read?, hmark, if_neg hname, if_neg hnumber]
        rw [if_neg hnumber, hnone]
        rfl

/-- The scanner gives the tokens of the text from its offset on. -/
theorem scan_eq {rounds i : Nat} (hi : i ≤ chars.length) (hrounds : chars.length < i + rounds)
    (tokens : List Token) :
    scan largest chars patience rounds i tokens =
      .ok ((Token.ofCharsFrom i (chars.drop i)).map (tokens ++ ·)) := by
  induction rounds generalizing i tokens with
  | zero => omega
  | succ rounds ih =>
    rw [scan]
    cases hdrop : chars.drop i with
    | nil =>
      have hend := List.drop_eq_nil_iff.mp hdrop
      rw [if_neg (Nat.not_lt.mpr hend), Token.ofCharsFrom_nil, Nat.le_antisymm hi hend]
      rfl
    | cons first rest =>
      have hlength := length_of_drop_eq hdrop
      have hrest := drop_succ_of_drop_eq hdrop
      rw [if_pos (by omega), read_eq_ok (getElem?_of_drop_eq hdrop), ok_bind]
      by_cases hblank : Text.isBlank first
      · rw [if_pos hblank, add_eq_ok (by omega), ok_bind, ih (by omega) (by omega), hrest,
          Token.ofCharsFrom_blank hblank]
      · rw [if_neg hblank, scanLexeme_eq hlargest hpatience hdrop, ok_bind]
        cases hread : Lexeme.read? first rest with
        | none =>
          rw [Token.ofCharsFrom_bad hblank hread]
          rfl
        | some found =>
          obtain ⟨lexeme, more⟩ := found
          have hmore := Lexeme.read?_length hread
          rw [Token.ofCharsFrom_lexeme hblank hread]
          change scan largest chars patience rounds (i + 1 + more) _ = _
          rw [ih (by omega) (by omega), ← List.drop_drop, hrest]
          cases Token.ofCharsFrom (i + 1 + more) (rest.drop more) with
          | error fault => rfl
          | ok others => simp [Except.map]

end

/-- No text makes the scanner break off, and it gives the tokens of the text. -/
theorem tokens_eq {largest patience : Nat} {text : String} (hlargest : text.length ≤ largest)
    (hpatience : text.length < patience) :
    tokens largest patience text = .ok (Token.ofText text) := by
  rw [← String.length_toList] at hlargest hpatience
  rw [tokens, scan_eq hlargest hpatience (Nat.zero_le _) (by omega), List.drop_zero, Token.ofText]
  cases Token.ofCharsFrom 0 text.toList <;> rfl

end Checked

end Reckoner
