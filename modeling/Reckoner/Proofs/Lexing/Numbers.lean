import Reckoner.Proofs.Lexing.Lexemes

/-!
# Written Numbers are Read

A number that is written with digits where digits belong is read as it was written, to its end, and
what is read where a number begins is written like that.  In a longer text, at least the number that
the text begins with is read.
-/

namespace Reckoner

section Runs

variable {p : Char → Bool} {l r : List Char}

theorem takeWhile_append_of_all (hl : ∀ c ∈ l, p c) (hr : ∀ c ∈ r.head?, p c = false) :
    (l ++ r).takeWhile p = l := by
  rw [List.takeWhile_append_of_pos hl]
  cases r with
  | nil => simp
  | cons c r => simp [hr c rfl]

theorem dropWhile_append_of_all (hl : ∀ c ∈ l, p c) (hr : ∀ c ∈ r.head?, p c = false) :
    (l ++ r).dropWhile p = r := by
  rw [List.dropWhile_append_of_pos hl]
  cases r with
  | nil => rfl
  | cons c r => simp [hr c rfl]

theorem forall_mem_head?_cons {P : Char → Prop} {c : Char} (h : P c) (cs : List Char) :
    ∀ d ∈ (c :: cs).head?, P d := by
  rintro d ⟨rfl⟩
  exact h

theorem bne_of_not_mem {mark : Char} (h : mark ∉ l) : ∀ c ∈ l, (c != mark) = true :=
  fun _ hc ↦ bne_iff_ne.mpr (ne_of_mem_of_not_mem hc h)

end Runs

def AllDigits (cs : List Char) : Prop := ∀ c ∈ cs, c.isDigit

def NoDigitFirst (cs : List Char) : Prop := ∀ c ∈ cs.head?, c.isDigit = false

theorem noDigitFirst_cons {c : Char} (h : c.isDigit = false) (cs : List Char) :
    NoDigitFirst (c :: cs) :=
  forall_mem_head?_cons h cs

namespace AllDigits

variable {l r : List Char}

theorem nil : AllDigits [] := List.forall_mem_nil _

theorem append (hl : AllDigits l) (hr : AllDigits r) : AllDigits (l ++ r) := by
  intro c hc
  rcases List.mem_append.mp hc with h | h
  · exact hl c h
  · exact hr c h

theorem takeWhile_append (h : AllDigits l) (hr : NoDigitFirst r) :
    (l ++ r).takeWhile Char.isDigit = l :=
  takeWhile_append_of_all h hr

theorem dropWhile_append (h : AllDigits l) (hr : NoDigitFirst r) :
    (l ++ r).dropWhile Char.isDigit = r :=
  dropWhile_append_of_all h hr

end AllDigits

/-! ## Exponents -/

namespace ExponentText

/-- A letter, a sign or none, and digits. -/
structure Valid (e : ExponentText) : Prop where
  mark : ∃ letter, (letter = 'e' ∨ letter = 'E') ∧
    ((e.mark = [letter] ∧ e.negative = false) ∨ (e.mark = [letter, '+'] ∧ e.negative = false) ∨
      (e.mark = [letter, '-'] ∧ e.negative = true))
  digits : AllDigits e.digits
  ne_nil : e.digits ≠ []

variable {e : ExponentText}

/-- The digits after the mark are read with all digits that follow them. -/
theorem Valid.afterMark?_append (h : e.Valid) (mark : List Char) (negative : Bool) (r : List Char) :
    afterMark? mark negative (e.digits ++ r) =
      some ⟨mark, negative, e.digits ++ r.takeWhile Char.isDigit⟩ := by
  rw [afterMark?, List.takeWhile_append_of_pos h.digits]
  exact if_neg (List.append_ne_nil_of_left_ne_nil h.ne_nil _)

theorem Valid.read?_append (h : e.Valid) (r : List Char) :
    read? (e.chars ++ r) = some { e with digits := e.digits ++ r.takeWhile Char.isDigit } := by
  obtain ⟨letter, hletter, hmark⟩ := h.mark
  have hafter := fun mark negative ↦ h.afterMark?_append mark negative r
  obtain ⟨mark, negative, digits⟩ := e
  dsimp only at hmark hafter
  rcases hmark with ⟨rfl, rfl⟩ | ⟨rfl, rfl⟩ | ⟨rfl, rfl⟩
  · cases digits with
    | nil => exact absurd rfl h.ne_nil
    | cons first rest =>
      have hdigit : first.isDigit := h.digits first List.mem_cons_self
      have hplus : first ≠ '+' := by
        rintro rfl
        cases hdigit
      have hminus : first ≠ '-' := by
        rintro rfl
        cases hdigit
      simpa [chars, read?, hletter, hplus, hminus] using hafter [letter] false
  · simpa [chars, read?, hletter] using hafter [letter, '+'] false
  · simpa [chars, read?, hletter] using hafter [letter, '-'] true

theorem Valid.read?_chars (h : e.Valid) : read? e.chars = some e := by
  have happend := h.read?_append []
  rw [List.append_nil, List.takeWhile_nil, List.append_nil] at happend
  exact happend

/-- What is read as an exponent is one. -/
theorem read?_valid {cs : List Char} (h : read? cs = some e) : e.Valid := by
  have hafter : ∀ {mark negative rest}, afterMark? mark negative rest = some e →
      e.mark = mark ∧ e.negative = negative ∧ AllDigits e.digits ∧ e.digits ≠ [] := by
    intro mark negative rest he
    rw [afterMark?] at he
    split at he
    · cases he
    case isFalse hne =>
      cases he
      exact ⟨rfl, rfl, fun _ hc ↦ List.mem_takeWhile_imp hc, hne⟩
  unfold read? at h
  split at h
  case h_2 => cases h
  case h_1 letter rest =>
    split at h
    case isFalse => cases h
    case isTrue hletter =>
      split at h
      case h_1 =>
        obtain ⟨hmark, hnegative, hdigits, hne⟩ := hafter h
        exact ⟨⟨letter, hletter, .inr (.inl ⟨hmark, hnegative⟩)⟩, hdigits, hne⟩
      case h_2 =>
        obtain ⟨hmark, hnegative, hdigits, hne⟩ := hafter h
        exact ⟨⟨letter, hletter, .inr (.inr ⟨hmark, hnegative⟩)⟩, hdigits, hne⟩
      case h_3 =>
        obtain ⟨hmark, hnegative, hdigits, hne⟩ := hafter h
        exact ⟨⟨letter, hletter, .inl ⟨hmark, hnegative⟩⟩, hdigits, hne⟩

theorem Valid.exists_letter (h : e.Valid) :
    ∃ letter rest, e.chars = letter :: rest ∧ (letter = 'e' ∨ letter = 'E') := by
  obtain ⟨letter, hletter, ⟨hmark, -⟩ | ⟨hmark, -⟩ | ⟨hmark, -⟩⟩ := h.mark <;>
    exact ⟨letter, _, by rw [chars, hmark]; rfl, hletter⟩

end ExponentText

/-! ## Numbers -/

namespace NumberText

/-- Digits before the point or after it, digits only, and a valid exponent if there is one. -/
structure Valid (n : NumberText) : Prop where
  whole : AllDigits n.whole
  fraction : AllDigits (n.fraction.getD [])
  ne_nil : n.whole ++ n.fraction.getD [] ≠ []
  exponent : ∀ e ∈ n.exponent, e.Valid

variable {n : NumberText}

theorem Valid.ofDigits {whole : List Char} {fraction : Option (List Char)}
    (hwhole : AllDigits whole) (hfraction : AllDigits (fraction.getD []))
    (hne : whole ++ fraction.getD [] ≠ []) : Valid ⟨whole, fraction, none⟩ :=
  ⟨hwhole, hfraction, hne, by simp⟩

/-- The exponent and its absence are read as what they are. -/
theorem Valid.read?_exponent (h : n.Valid) :
    ExponentText.read? (n.exponent.elim [] ExponentText.chars) = n.exponent := by
  cases hexponent : n.exponent with
  | none => rfl
  | some e => exact (h.exponent e hexponent).read?_chars

theorem Valid.exponent_first (h : n.Valid) :
    ∀ c ∈ (n.exponent.elim [] ExponentText.chars).head?, c.isDigit = false ∧ c ≠ '.' := by
  cases hexponent : n.exponent with
  | none => exact nofun
  | some e =>
    obtain ⟨letter, rest, hchars, hletter⟩ := (h.exponent e hexponent).exists_letter
    rw [Option.elim_some, hchars]
    intro c hc
    cases hc
    rcases hletter with rfl | rfl <;> decide

theorem read_point {whole : List Char} (h : AllDigits whole) (rest : List Char) :
    read (whole ++ '.' :: rest) =
      ⟨whole, some (rest.takeWhile Char.isDigit),
        ExponentText.read? (rest.dropWhile Char.isDigit)⟩ := by
  have hpoint : NoDigitFirst ('.' :: rest) := by
    intro c hc
    cases hc
    rfl
  rw [read, h.takeWhile_append hpoint, h.dropWhile_append hpoint]
  rfl

theorem read_noPoint {whole rest : List Char} (h : AllDigits whole)
    (hrest : ∀ c ∈ rest.head?, c.isDigit = false ∧ c ≠ '.') :
    read (whole ++ rest) = ⟨whole, none, ExponentText.read? rest⟩ := by
  have hdigit : NoDigitFirst rest := fun c hc ↦ (hrest c hc).1
  rw [read, h.takeWhile_append hdigit, h.dropWhile_append hdigit]
  split
  case h_1 => exact absurd rfl (hrest '.' rfl).2
  case h_2 => rfl

theorem Valid.read_chars (h : n.Valid) : read n.chars = n := by
  have hexponent := h.read?_exponent
  have hfirst := h.exponent_first
  have hwhole := h.whole
  have hfraction := h.fraction
  obtain ⟨whole, fraction, exponent⟩ := n
  dsimp only at hexponent hfirst hwhole hfraction
  cases fraction with
  | none =>
    rw [chars, Option.elim_none, List.append_nil, read_noPoint hwhole hfirst, hexponent]
  | some fraction =>
    have hdigit : NoDigitFirst (exponent.elim [] ExponentText.chars) := fun c hc ↦ (hfirst c hc).1
    have hfraction' : AllDigits fraction := hfraction
    rw [chars, Option.elim_some, List.append_assoc, List.cons_append, read_point hwhole,
      hfraction'.takeWhile_append hdigit, hfraction'.dropWhile_append hdigit, hexponent]

/-- What is read goes on at least to where a number at the beginning of the text ends. -/
theorem Valid.length_le_read (h : n.Valid) (r : List Char) :
    n.chars.length ≤ (read (n.chars ++ r)).chars.length := by
  have hwhole := h.whole
  have hfraction := h.fraction
  have hexponent := h.exponent
  obtain ⟨whole, fraction, exponent⟩ := n
  dsimp only at hwhole hfraction hexponent
  cases exponent with
  | some e =>
    have he := hexponent e rfl
    obtain ⟨letter, rest, hchars, hletter⟩ := he.exists_letter
    have hfirst : ∀ c ∈ (e.chars ++ r).head?, c.isDigit = false ∧ c ≠ '.' := by
      rw [hchars]
      intro c hc
      cases hc
      rcases hletter with rfl | rfl <;> decide
    cases fraction with
    | none =>
      simp only [chars, Option.elim_none, Option.elim_some, List.append_nil, List.append_assoc,
        read_noPoint hwhole hfirst, he.read?_append]
      simp [ExponentText.chars]
    | some fraction =>
      have hdigit : NoDigitFirst (e.chars ++ r) := fun c hc ↦ (hfirst c hc).1
      have hfraction' : AllDigits fraction := hfraction
      simp only [chars, Option.elim_some, List.append_assoc, List.cons_append, read_point hwhole,
        hfraction'.takeWhile_append hdigit, hfraction'.dropWhile_append hdigit, he.read?_append]
      simp [ExponentText.chars]
  | none =>
    cases fraction with
    | none =>
      have hread : (read (whole ++ r)).whole = whole ++ r.takeWhile Char.isDigit := by
        rw [← List.takeWhile_append_of_pos hwhole, read]
        split <;> rfl
      simp only [chars, Option.elim_none, List.append_nil, hread, List.length_append]
      omega
    | some fraction =>
      have hfraction' : AllDigits fraction := hfraction
      simp only [chars, Option.elim_none, Option.elim_some, List.append_nil, List.append_assoc,
        List.cons_append, read_point hwhole, List.takeWhile_append_of_pos hfraction']
      simp

theorem starts_of_isDigit {c : Char} (h : c.isDigit) (rest : List Char) : starts (c :: rest) := by
  have hpoint : c ≠ '.' := by
    rintro rfl
    exact absurd h (by decide)
  cases rest <;> simp [starts, hpoint, h]

theorem Valid.starts_chars (h : n.Valid) : starts n.chars := by
  have hwhole := h.whole
  have hfraction := h.fraction
  have hne := h.ne_nil
  rw [chars]
  cases hcase : n.whole with
  | cons c whole =>
    rw [hcase] at hwhole
    exact starts_of_isDigit (hwhole c List.mem_cons_self) _
  | nil =>
    rw [hcase, List.nil_append] at hne
    cases hpoint : n.fraction with
    | none =>
      rw [hpoint] at hne
      exact absurd rfl hne
    | some fraction =>
      rw [hpoint, Option.getD_some] at hne hfraction
      cases fraction with
      | nil => exact absurd rfl hne
      | cons c fraction => exact hfraction c List.mem_cons_self

/-- A number begins with a digit, or with a point and a digit. -/
theorem starts_cases {cs : List Char} (h : starts cs) :
    (∃ c rest, cs = c :: rest ∧ c.isDigit) ∨ ∃ c rest, cs = '.' :: c :: rest ∧ c.isDigit := by
  unfold starts at h
  split at h
  case h_1 next rest => exact .inr ⟨next, rest, rfl, h⟩
  case h_2 c rest _ => exact .inl ⟨c, rest, rfl, h⟩
  case h_3 => cases h

theorem first_of_starts {c : Char} {rest : List Char} (h : starts (c :: rest)) :
    c = '.' ∨ c.isDigit := by
  rcases starts_cases h with ⟨c, rest, hcons, hdigit⟩ | ⟨d, rest, hcons, -⟩
  · cases hcons
    exact .inr hdigit
  · cases hcons
    exact .inl rfl

theorem starts_append {cs : List Char} (h : starts cs) (r : List Char) : starts (cs ++ r) := by
  rcases starts_cases h with ⟨c, rest, rfl, hdigit⟩ | ⟨c, rest, rfl, hdigit⟩
  · exact starts_of_isDigit hdigit (rest ++ r)
  · exact hdigit

theorem Valid.chars_ne_nil (h : n.Valid) : n.chars ≠ [] := by
  intro hnil
  have hstarts := h.starts_chars
  rw [hnil] at hstarts
  cases hstarts

/-- What is read from where a number begins is one. -/
theorem read_valid {cs : List Char} (h : starts cs) : (read cs).Valid := by
  have hdigits : ∀ l : List Char, AllDigits (l.takeWhile Char.isDigit) :=
    fun _ _ hc ↦ List.mem_takeWhile_imp hc
  rcases starts_cases h with ⟨c, rest, rfl, hdigit⟩ | ⟨c, rest, rfl, hdigit⟩
  · have hne : (c :: rest).takeWhile Char.isDigit ≠ [] := by
      rw [List.takeWhile_cons_of_pos hdigit]
      exact List.cons_ne_nil _ _
    unfold read
    split
    case h_1 rest' _ =>
      exact ⟨hdigits _, hdigits rest', List.append_ne_nil_of_left_ne_nil hne _,
        fun e he ↦ ExponentText.read?_valid he⟩
    case h_2 =>
      exact ⟨hdigits _, .nil, List.append_ne_nil_of_left_ne_nil hne _,
        fun e he ↦ ExponentText.read?_valid he⟩
  · have hread := read_point .nil (c :: rest)
    rw [List.nil_append] at hread
    rw [hread]
    refine ⟨.nil, hdigits _, ?_, fun e he ↦ ExponentText.read?_valid he⟩
    rw [List.nil_append, Option.getD_some, List.takeWhile_cons_of_pos hdigit]
    exact List.cons_ne_nil _ _

end NumberText

/-! ## Numbers as lexemes -/

namespace Lexeme

variable {c : Char} {rest : List Char}

theorem ofMark?_eq_none_of_isDigit (h : c.isDigit) : ofMark? c = none := by
  unfold ofMark?
  split <;> first | rfl | cases h

theorem startsName_eq_false_of_isDigit (h : c.isDigit) : startsName c = false := by
  rw [Bool.eq_false_iff, ne_eq, startsName, Bool.or_eq_true, isAlpha_iff_toNat, beq_iff_eq,
    eq_underscore_iff_toNat]
  have hrange : 48 ≤ c.toNat ∧ c.toNat ≤ 57 := Char.isDigit_iff_toNat.mp h
  omega

theorem not_isBlank_of_isDigit (h : c.isDigit) : ¬ Text.isBlank c := by
  intro hblank
  have hname := (separates_of_blank hblank).isDigit_eq_false
  rw [h] at hname
  cases hname

theorem read?_number (h : NumberText.starts (c :: rest)) :
    read? c rest = some (.number (NumberText.read (c :: rest)).value,
      (NumberText.read (c :: rest)).chars.length - 1) := by
  have hother : ofMark? c = none ∧ startsName c = false := by
    rcases NumberText.first_of_starts h with rfl | hdigit
    · decide
    · exact ⟨ofMark?_eq_none_of_isDigit hdigit, startsName_eq_false_of_isDigit hdigit⟩
  simp [read?, hother.1, hother.2, h]

end Lexeme

end Reckoner
