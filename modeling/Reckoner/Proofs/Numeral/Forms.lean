import Reckoner.Proofs.Numeral.Layout

/-!
# The Forms of a Number

A number is written as a whole number, as a fraction that does not end in a zero, or with a mantissa
and an exponent that has its sign and at least two digits.  Decimals without zeros at their end are
laid out in these forms, and of the three only the last has a letter in it.
-/

namespace Reckoner.Numeral

open Binary64

/-! ## First and last digits -/

theorem digitChar_ne_zero {digit : Nat} (h : digit < 10) (hne : digit ≠ 0) :
    digit.digitChar ≠ '0' := by
  have hdigits : ∀ digit < 10, digit ≠ 0 → Nat.digitChar digit ≠ '0' := by decide
  exact hdigits digit h hne

theorem getLast?_digitsOf (n : Nat) : (digitsOf n).getLast? = some (n % 10).digitChar := by
  rw [digitsOf]
  rcases Nat.lt_or_ge n 10 with hlt | hle
  · rw [Nat.toDigits_of_lt_base hlt, Nat.mod_eq_of_lt hlt, List.getLast?_singleton]
  · rw [Nat.toDigits_of_base_le (by decide) hle, List.getLast?_append_of_ne_nil _ (by simp),
      List.getLast?_singleton]

/-- A number that is not zero does not begin with a zero. -/
theorem head?_digitsOf_ne {n : Nat} (h : n ≠ 0) : (digitsOf n).head? ≠ some '0' := by
  induction n using Nat.strongRecOn with
  | ind n ih =>
    rw [digitsOf]
    rcases Nat.lt_or_ge n 10 with hlt | hle
    · rw [Nat.toDigits_of_lt_base hlt, List.head?_cons]
      exact fun hhead ↦ digitChar_ne_zero hlt h (Option.some.inj hhead)
    · rw [Nat.toDigits_of_base_le (by decide) hle,
        List.head?_append_of_ne_nil _ Nat.toDigits_ne_nil]
      exact ih (n / 10) (Nat.div_lt_self (by omega) (by decide)) (by omega)

/-- A number is written without a zero before other digits. -/
theorem digitsOf_ne_zero_cons (n : Nat) (next : Char) (more : List Char) :
    digitsOf n ≠ '0' :: next :: more := by
  intro heq
  have hzero : n = 0 := by
    by_contra hne
    exact head?_digitsOf_ne hne (by rw [heq, List.head?_cons])
  rw [hzero] at heq
  cases heq

/-- The digits of a number with zeros before them, if there are fewer digits than wanted. -/
def paddedDigits (least n : Nat) : List Char := zeros (least - (digitsOf n).length) ++ digitsOf n

theorem allDigits_paddedDigits (least n : Nat) : AllDigits (paddedDigits least n) :=
  (allDigits_zeros _).append (allDigits_digitsOf n)

theorem readDigits_paddedDigits (least n : Nat) : readDigits (paddedDigits least n) = n := by
  rw [paddedDigits, readDigits_zeros_append, readDigits_digitsOf]

theorem le_length_paddedDigits (least n : Nat) : least ≤ (paddedDigits least n).length := by
  rw [paddedDigits, List.length_append, length_zeros]
  omega

/-- More digits than wanted do not begin with a zero. -/
theorem head?_paddedDigits_ne {least n : Nat} (hleast : 0 < least)
    (hlong : least < (paddedDigits least n).length) : (paddedDigits least n).head? ≠ some '0' := by
  rw [paddedDigits, List.length_append, length_zeros] at hlong
  have hnone : least - (digitsOf n).length = 0 := by omega
  have hne : n ≠ 0 := by
    rintro rfl
    have hzero : (digitsOf 0).length = 1 := rfl
    omega
  rw [paddedDigits, hnone]
  exact head?_digitsOf_ne hne

/-! ## Three forms of a text -/

/-- `[-]d...d`. -/
def IsWhole (negative : Bool) (text : List Char) : Prop :=
  ∃ digits, digits ≠ [] ∧ AllDigits digits ∧ text = signText negative ++ digits

/-- `[-]d...d.d...d`, without a zero at its end. -/
def IsFraction (negative : Bool) (text : List Char) : Prop :=
  ∃ whole fraction, whole ≠ [] ∧ AllDigits whole ∧ fraction ≠ [] ∧ AllDigits fraction ∧
    fraction.getLast? ≠ some '0' ∧ text = signText negative ++ (whole ++ '.' :: fraction)

/-- `[-]d[.d...d]e`, a sign, and the digits of `size`, at least two and filled up with zeros to no
more than that. -/
def IsScientific (negative : Bool) (sign : Char) (size : Nat) (text : List Char) : Prop :=
  ∃ first fraction digits, first.isDigit ∧ AllDigits fraction ∧ AllDigits digits ∧
    readDigits digits = size ∧ 2 ≤ digits.length ∧
    (2 < digits.length → digits.head? ≠ some '0') ∧
    text = signText negative ++ (first :: pointed fraction ++ 'e' :: sign :: digits)

variable {negative : Bool} {text : List Char} {d : Decimal}

theorem letter_not_mem_of_allDigits {digits : List Char} (h : AllDigits digits) :
    'e' ∉ digits := fun hletter ↦ absurd (h 'e' hletter) (by decide)

theorem letter_not_mem_signText : 'e' ∉ signText negative := by
  cases negative <;> decide

theorem IsWhole.letter_not_mem (h : IsWhole negative text) : 'e' ∉ text := by
  obtain ⟨digits, -, hdigits, rfl⟩ := h
  rw [List.mem_append, not_or]
  exact ⟨letter_not_mem_signText, letter_not_mem_of_allDigits hdigits⟩

theorem IsFraction.letter_not_mem (h : IsFraction negative text) : 'e' ∉ text := by
  obtain ⟨whole, fraction, -, hwhole, -, hfraction, -, rfl⟩ := h
  rw [List.mem_append, List.mem_append, List.mem_cons, not_or, not_or, not_or]
  exact ⟨letter_not_mem_signText, letter_not_mem_of_allDigits hwhole, by decide,
    letter_not_mem_of_allDigits hfraction⟩

theorem IsScientific.letter_mem {sign : Char} {size : Nat}
    (h : IsScientific negative sign size text) : 'e' ∈ text := by
  obtain ⟨first, fraction, digits, -, -, -, -, -, -, rfl⟩ := h
  simp

/-! ## The layouts have these forms -/

theorem isWhole_positional (hexponent : 0 ≤ d.exponent) :
    IsWhole negative (signText negative ++ positional d) := by
  refine ⟨digitsOf d.digits ++ zeros d.exponent.toNat, ?_, ?_, ?_⟩
  · exact List.append_ne_nil_of_left_ne_nil Nat.toDigits_ne_nil _
  · exact (allDigits_digitsOf _).append (allDigits_zeros _)
  · rw [positional, if_pos hexponent]

theorem isFraction_positional (hexponent : d.exponent < 0) (hlast : d.digits % 10 ≠ 0) :
    IsFraction negative (signText negative ++ positional d) := by
  have hdigits := allDigits_digitsOf d.digits
  have hne : digitsOf d.digits ≠ [] := Nat.toDigits_ne_nil
  have hpoint := pointPosition_eq d
  have hzero : (digitsOf d.digits).getLast? ≠ some '0' := by
    rw [getLast?_digitsOf]
    exact fun h ↦ digitChar_ne_zero (Nat.mod_lt _ (by decide)) hlast (Option.some.inj h)
  rw [positional, if_neg (by omega)]
  split
  case isTrue hbefore =>
    refine ⟨['0'], zeros (-d.pointPosition).toNat ++ digitsOf d.digits, by simp, allDigits_zeros 1,
      List.append_ne_nil_of_right_ne_nil _ hne, (allDigits_zeros _).append hdigits, ?_, rfl⟩
    rwa [List.getLast?_append_of_ne_nil _ hne]
  case isFalse hinside =>
    have hrest : d.pointPosition.toNat < (digitsOf d.digits).length := by omega
    refine ⟨(digitsOf d.digits).take d.pointPosition.toNat,
      (digitsOf d.digits).drop d.pointPosition.toNat, ?_,
      fun c hc ↦ hdigits c (List.mem_of_mem_take hc), ?_,
      fun c hc ↦ hdigits c (List.mem_of_mem_drop hc), ?_, rfl⟩
    · rw [Ne, List.take_eq_nil_iff, not_or]
      exact ⟨by omega, hne⟩
    · rw [Ne, List.drop_eq_nil_iff]
      omega
    · rwa [List.getLast?_drop, if_neg (by omega)]

theorem isScientific_exponential :
    IsScientific negative (if d.leadingExponent < 0 then '-' else '+') d.leadingExponent.natAbs
      (signText negative ++ exponential leastExponentDigits d) := by
  obtain ⟨first, fraction, hcons, hmantissa⟩ := exists_mantissa d
  have hdigits := allDigits_digitsOf d.digits
  rw [hcons] at hdigits
  obtain ⟨hfirst, hfraction⟩ := List.forall_mem_cons.mp hdigits
  refine ⟨first, fraction, paddedDigits leastExponentDigits d.leadingExponent.natAbs, hfirst,
    hfraction, allDigits_paddedDigits _ _, readDigits_paddedDigits _ _,
    le_length_paddedDigits _ _, head?_paddedDigits_ne (by decide), ?_⟩
  rw [exponential, hmantissa]
  rfl

end Reckoner.Numeral
