import Reckoner.Json.Number
import Reckoner.Proofs.Lexing.Numbers

/-!
# The Forms of JSON Numbers

The ways to write a number, and the digits that are kept of it.  What is read as a number is one of
these, and each of them is read as the number wherever no digit, point or letter goes on with it.
-/

namespace Reckoner.Json

/-! ## The forms of numbers -/

/-- A lone zero, or digits that do not begin with one. -/
structure WholeForm (digits : List Char) : Prop where
  allDigits : AllDigits digits
  ne_nil : digits ≠ []
  noZero : ∀ second rest, digits ≠ '0' :: second :: rest

/-- The ways to write the digits after the point: not at all if there are none. -/
inductive FractionForm : List Char → List Char → Prop
  | absent : FractionForm [] []
  | present {digits : List Char} (hdigits : AllDigits digits) (hne : digits ≠ []) :
    FractionForm digits ('.' :: digits)

inductive SignForm : Bool → List Char → Prop
  | none : SignForm false []
  | plus : SignForm false ['+']
  | minus : SignForm true ['-']

inductive ExponentForm : Option (Bool × List Char) → List Char → Prop
  | absent : ExponentForm none []
  | present {letter : Char} {negative : Bool} {sign digits : List Char}
    (hletter : letter = 'e' ∨ letter = 'E') (hsign : SignForm negative sign)
    (hdigits : AllDigits digits) (hne : digits ≠ []) :
    ExponentForm (some (negative, digits)) (letter :: (sign ++ digits))

inductive UnsignedForm (negative : Bool) : NumberText → List Char → Prop
  | mk {whole fraction f e : List Char} {exponent : Option (Bool × List Char)}
    (hwhole : WholeForm whole) (hfraction : FractionForm fraction f)
    (hexponent : ExponentForm exponent e) :
    UnsignedForm negative ⟨negative, whole, fraction, exponent⟩ (whole ++ (f ++ e))

/-- The ways to write a number. -/
inductive NumberForm : NumberText → List Char → Prop
  | positive {n : NumberText} {cs : List Char} (h : UnsignedForm false n cs) : NumberForm n cs
  | negative {n : NumberText} {cs : List Char} (h : UnsignedForm true n cs) :
    NumberForm n ('-' :: cs)

/-- A number does not go on. -/
def NumberEnds (rest : List Char) : Prop :=
  ∀ c ∈ rest.head?, c.isDigit = false ∧ c ≠ '.' ∧ c ≠ 'e' ∧ c ≠ 'E'

/-! ## Numbers that are read -/

variable {cs rest digits : List Char} {n : NumberText}

theorem NumberEnds.noDigitFirst (h : NumberEnds rest) : NoDigitFirst rest :=
  fun c hc ↦ (h c hc).1

/-- The digits that a text begins with, and the rest. -/
theorem takeWhile_isDigit (cs : List Char) : AllDigits (cs.takeWhile Char.isDigit) ∧
    cs = cs.takeWhile Char.isDigit ++ cs.dropWhile Char.isDigit :=
  ⟨fun _ hc ↦ List.mem_takeWhile_imp hc, List.takeWhile_append_dropWhile.symm⟩

theorem readWhole_eq_some (h : readWhole cs = some (digits, rest)) :
    WholeForm digits ∧ cs = digits ++ rest := by
  obtain ⟨hdigits, hcs⟩ := takeWhile_isDigit cs
  rw [readWhole] at h
  split at h
  case h_1 => cases h
  case h_2 => cases h
  case h_3 hne hzero =>
    cases h
    exact ⟨⟨hdigits, hne, hzero⟩, hcs⟩

theorem WholeForm.readWhole (h : WholeForm digits) (hrest : NoDigitFirst rest) :
    readWhole (digits ++ rest) = some (digits, rest) := by
  rw [Json.readWhole, h.allDigits.takeWhile_append hrest, h.allDigits.dropWhile_append hrest]
  split
  case h_1 => exact absurd rfl h.ne_nil
  case h_2 => exact absurd rfl (h.noZero _ _)
  case h_3 => rfl

theorem readDigits_eq_some (h : readDigits cs = some (digits, rest)) :
    AllDigits digits ∧ digits ≠ [] ∧ cs = digits ++ rest := by
  obtain ⟨hdigits, hcs⟩ := takeWhile_isDigit cs
  simp only [readDigits] at h
  split at h
  case isTrue => cases h
  case isFalse hne =>
    cases h
    exact ⟨hdigits, hne, hcs⟩

theorem readDigits_append (hdigits : AllDigits digits) (hne : digits ≠ [])
    (hrest : NoDigitFirst rest) : readDigits (digits ++ rest) = some (digits, rest) := by
  simp only [readDigits]
  rw [hdigits.takeWhile_append hrest, hdigits.dropWhile_append hrest, if_neg hne]

theorem readFraction_eq_some (h : readFraction cs = some (digits, rest)) :
    ∃ f, FractionForm digits f ∧ cs = f ++ rest := by
  rw [readFraction.eq_def] at h
  split at h
  case h_1 =>
    obtain ⟨hdigits, hne, rfl⟩ := readDigits_eq_some h
    exact ⟨_, .present hdigits hne, rfl⟩
  case h_2 =>
    cases h
    exact ⟨[], .absent, rfl⟩

theorem FractionForm.readFraction {f : List Char} (h : FractionForm digits f)
    (hrest : NoDigitFirst rest) (hpoint : ∀ c ∈ rest.head?, c ≠ '.') :
    readFraction (f ++ rest) = some (digits, rest) := by
  cases h with
  | absent =>
    rw [List.nil_append, Json.readFraction.eq_def]
    split
    case h_1 => exact absurd rfl (hpoint '.' rfl)
    case h_2 => rfl
  | present hdigits hne =>
    rw [List.cons_append, Json.readFraction, readDigits_append hdigits hne hrest]

theorem readExponentSign_form (cs : List Char) :
    ∃ sign, SignForm (readExponentSign cs).1 sign ∧ cs = sign ++ (readExponentSign cs).2 := by
  rw [readExponentSign.eq_def]
  split
  · exact ⟨_, .minus, rfl⟩
  · exact ⟨_, .plus, rfl⟩
  · exact ⟨_, .none, rfl⟩

theorem SignForm.readExponentSign {negative : Bool} {sign : List Char}
    (h : SignForm negative sign) (hrest : ∀ c ∈ rest.head?, c.isDigit) :
    readExponentSign (sign ++ rest) = (negative, rest) := by
  cases h with
  | plus => rfl
  | minus => rfl
  | none =>
    rw [List.nil_append, Json.readExponentSign.eq_def]
    split
    case h_1 => exact absurd (hrest '-' rfl) (by decide)
    case h_2 => exact absurd (hrest '+' rfl) (by decide)
    case h_3 => rfl

theorem readExponent_eq_some {exponent : Option (Bool × List Char)}
    (h : readExponent cs = some (exponent, rest)) :
    ∃ e, ExponentForm exponent e ∧ cs = e ++ rest := by
  rw [readExponent.eq_def] at h
  split at h
  case h_1 =>
    cases h
    exact ⟨[], .absent, rfl⟩
  case h_2 letter tail =>
    split at h
    case isTrue hletter =>
      simp only [Option.bind_eq_bind, Option.bind_eq_some_iff] at h
      obtain ⟨⟨digits, rest'⟩, hread, heq⟩ := h
      cases heq
      obtain ⟨sign, hsign, htail⟩ := readExponentSign_form tail
      obtain ⟨hdigits, hne, hafter⟩ := readDigits_eq_some hread
      refine ⟨_, .present hletter hsign hdigits hne, ?_⟩
      rw [List.cons_append, List.append_assoc, ← hafter, ← htail]
    case isFalse =>
      cases h
      exact ⟨[], .absent, rfl⟩

theorem ExponentForm.readExponent {exponent : Option (Bool × List Char)} {e : List Char}
    (h : ExponentForm exponent e) (hrest : NumberEnds rest) :
    readExponent (e ++ rest) = some (exponent, rest) := by
  cases h with
  | absent =>
    cases rest with
    | nil => rfl
    | cons c rest =>
      obtain ⟨-, -, hlower, hupper⟩ := hrest c rfl
      rw [List.nil_append, Json.readExponent, if_neg (not_or.mpr ⟨hlower, hupper⟩)]
  | @present letter negative sign digits hletter hsign hdigits hne =>
    have hfirst : ∀ c ∈ (digits ++ rest).head?, c.isDigit := by
      cases digits with
      | nil => exact absurd rfl hne
      | cons first digits =>
        rintro c ⟨⟩
        exact hdigits _ List.mem_cons_self
    rw [List.cons_append, List.append_assoc, Json.readExponent, if_pos hletter,
      hsign.readExponentSign hfirst]
    simp only [readDigits_append hdigits hne hrest.noDigitFirst, Option.bind_eq_bind,
      Option.bind_some]

theorem readUnsigned_eq_some {negative : Bool} (h : readUnsigned negative cs = some (n, rest)) :
    ∃ t, UnsignedForm negative n t ∧ cs = t ++ rest := by
  simp only [readUnsigned, Option.bind_eq_bind, Option.bind_eq_some_iff] at h
  obtain ⟨⟨whole, cs₁⟩, hread₁, ⟨fraction, cs₂⟩, hread₂, ⟨exponent, cs₃⟩, hread₃, heq⟩ := h
  cases heq
  obtain ⟨hwhole, rfl⟩ := readWhole_eq_some hread₁
  obtain ⟨f, hfraction, rfl⟩ := readFraction_eq_some hread₂
  obtain ⟨e, hexponent, rfl⟩ := readExponent_eq_some hread₃
  refine ⟨_, .mk hwhole hfraction hexponent, ?_⟩
  rw [List.append_assoc, List.append_assoc]

/-- What follows the digits of a number neither is a digit nor a point. -/
theorem ExponentForm.ends {exponent : Option (Bool × List Char)} {e : List Char}
    (h : ExponentForm exponent e) (hrest : NumberEnds rest) :
    ∀ c ∈ (e ++ rest).head?, c.isDigit = false ∧ c ≠ '.' := by
  cases h with
  | absent => exact fun c hc ↦ ⟨(hrest c hc).1, (hrest c hc).2.1⟩
  | present hletter =>
    rintro c ⟨⟩
    rcases hletter with rfl | rfl <;> decide

theorem UnsignedForm.readUnsigned {negative : Bool} (h : UnsignedForm negative n cs)
    (hrest : NumberEnds rest) : readUnsigned negative (cs ++ rest) = some (n, rest) := by
  obtain @⟨whole, fraction, f, e, exponent, hwhole, hfraction, hexponent⟩ := h
  have hafter := hexponent.ends hrest
  have hfirst : NoDigitFirst (f ++ (e ++ rest)) := by
    cases hfraction with
    | absent => exact fun c hc ↦ (hafter c hc).1
    | present =>
      rintro c ⟨⟩
      rfl
  have hread := hfraction.readFraction (fun c hc ↦ (hafter c hc).1) fun c hc ↦ (hafter c hc).2
  simp only [Json.readUnsigned, List.append_assoc, hwhole.readWhole hfirst, hread,
    hexponent.readExponent hrest, Option.bind_eq_bind, Option.bind_some]

theorem readNumber_eq_some (h : readNumber cs = some (n, rest)) :
    ∃ t, NumberForm n t ∧ cs = t ++ rest := by
  rw [readNumber.eq_def] at h
  split at h
  case h_1 =>
    obtain ⟨t, ht, rfl⟩ := readUnsigned_eq_some h
    exact ⟨_, .negative ht, rfl⟩
  case h_2 =>
    obtain ⟨t, ht, rfl⟩ := readUnsigned_eq_some h
    exact ⟨t, .positive ht, rfl⟩

/-- A number without a sign begins with a digit. -/
theorem UnsignedForm.exists_digit {negative : Bool} (h : UnsignedForm negative n cs) :
    ∃ c t, cs = c :: t ∧ c.isDigit := by
  obtain @⟨whole, fraction, f, e, exponent, hwhole, -, -⟩ := h
  cases whole with
  | nil => exact absurd rfl hwhole.ne_nil
  | cons c whole => exact ⟨c, _, rfl, hwhole.allDigits c List.mem_cons_self⟩

theorem NumberForm.readNumber (h : NumberForm n cs) (hrest : NumberEnds rest) :
    readNumber (cs ++ rest) = some (n, rest) := by
  cases h with
  | negative h => exact h.readUnsigned hrest
  | positive h =>
    obtain ⟨c, t, rfl, hdigit⟩ := h.exists_digit
    rw [List.cons_append, Json.readNumber.eq_def]
    split
    case h_1 heq =>
      cases heq
      cases hdigit
    case h_2 => exact h.readUnsigned hrest

end Reckoner.Json
