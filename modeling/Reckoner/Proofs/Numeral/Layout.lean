import Reckoner.Proofs.Lexing.Numbers
import Reckoner.Proofs.Numeral.SeventeenDigits
import Reckoner.ResultText

/-!
# Layouts Read Back

Both layouts of a decimal are written numbers, and the number that is read is the double of the
decimal.  So the text of a result is one lexeme with this number, after a minus if the result is
negative.
-/

namespace Reckoner

namespace Numeral

/-! ## Digits -/

theorem allDigits_digitsOf (n : Nat) : AllDigits (digitsOf n) :=
  fun _ hc ↦ isDigit_of_mem_digitsOf hc

theorem allDigits_zeros (n : Nat) : AllDigits (zeros n) := by
  intro c hc
  rw [List.eq_of_mem_replicate hc]
  rfl

theorem length_zeros (n : Nat) : (zeros n).length = n := List.length_replicate

theorem readDigits_append (l r : List Char) :
    readDigits (l ++ r) = readDigits l * tenPow r.length + readDigits r := by
  rw [readDigits, Nat.ofDigitChars_append, Nat.ofDigitChars_eq_ofDigitChars_zero, Nat.mul_comm]
  rfl

theorem readDigits_zeros (n : Nat) : readDigits (zeros n) = 0 := by
  rw [readDigits, zeros, Nat.ofDigitChars_replicate_zero, Nat.mul_zero]

theorem readDigits_zeros_append (n : Nat) (l : List Char) :
    readDigits (zeros n ++ l) = readDigits l := by
  rw [readDigits_append, readDigits_zeros, Nat.zero_mul, Nat.zero_add]

theorem signText_true_append (l : List Char) : signText true ++ l = '-' :: l := rfl

theorem signText_false_append (l : List Char) : signText false ++ l = l := rfl

theorem value_eq_toBinary64 {n : NumberText} {d : Decimal}
    (hdigits : readDigits (n.whole ++ n.fraction.getD []) = d.digits)
    (hexponent : n.exponent.elim 0 ExponentText.value - ((n.fraction.getD []).length : Int) =
      d.exponent) : n.value = d.toBinary64 false := by
  rw [NumberText.value, hdigits, hexponent, Decimal.toBinary64]

theorem decimalOf_toBinary64 (m : Magnitude) :
    (decimalOf m).toBinary64 false = .finite false m := by
  rw [decimalOf]
  split
  case isTrue hzero =>
    rw [Decimal.toBinary64, Binary64.ofDecimal_zero]
    exact congrArg _ (Magnitude.ext hzero.symm)
  case isFalse => exact shortest_toBinary64 m

/-! ## The layout in full -/

theorem pointPosition_eq (d : Decimal) :
    d.pointPosition = (digitsOf d.digits).length + d.exponent := rfl

/-- The digits of a whole number, with the zeros up to its point. -/
theorem whole_value {d : Decimal} (hexponent : 0 ≤ d.exponent) :
    NumberText.value ⟨digitsOf d.digits ++ zeros d.exponent.toNat, none, none⟩ =
      d.toBinary64 false := by
  apply Binary64.ofDecimal_congr
  rw [decimalValue_of_nonneg (by simp), decimalValue_of_nonneg hexponent]
  simp [readDigits_append, readDigits_zeros, readDigits_digitsOf, length_zeros, tenPow_eq]

/-- Zeros after the point change nothing. -/
theorem value_zeros (whole : List Char) (k : Nat) :
    NumberText.value ⟨whole, some (zeros k), none⟩ = NumberText.value ⟨whole, none, none⟩ := by
  apply Binary64.ofDecimal_congr
  simp only [Option.getD_some, Option.getD_none, Option.elim_none, List.append_nil, length_zeros,
    readDigits_append, readDigits_zeros, List.length_nil, decimalValue]
  rw [Nat.add_zero, Nat.cast_mul, cast_tenPow, zero_sub, zpow_neg, zpow_natCast]
  simp

/-- The layout in full is a written number, and that of the decimal. -/
theorem exists_positional (d : Decimal) :
    ∃ n : NumberText, n.Valid ∧ n.chars = positional d ∧ n.value = d.toBinary64 false := by
  have hdigits := allDigits_digitsOf d.digits
  have hread := readDigits_digitsOf d.digits
  have hne : digitsOf d.digits ≠ [] := Nat.toDigits_ne_nil
  have hpoint := pointPosition_eq d
  rw [positional]
  split
  case isTrue hexponent =>
    refine ⟨⟨digitsOf d.digits ++ zeros d.exponent.toNat, none, none⟩, ?_, ?_, ?_⟩
    · exact .ofDigits (hdigits.append (allDigits_zeros _)) .nil (by simp [hne])
    · simp [NumberText.chars]
    · exact whole_value hexponent
  case isFalse hexponent =>
    split
    case isTrue hbefore =>
      refine ⟨⟨['0'], some (zeros (-d.pointPosition).toNat ++ digitsOf d.digits), none⟩, ?_, ?_, ?_⟩
      · exact .ofDigits (allDigits_zeros 1) ((allDigits_zeros _).append hdigits) (by simp)
      · simp [NumberText.chars]
      · apply value_eq_toBinary64
        · exact (readDigits_zeros_append 1 _).trans ((readDigits_zeros_append _ _).trans hread)
        · simp only [Option.elim_none, Option.getD_some, List.length_append, length_zeros]
          omega
    case isFalse hinside =>
      refine ⟨⟨(digitsOf d.digits).take d.pointPosition.toNat,
        some ((digitsOf d.digits).drop d.pointPosition.toNat), none⟩, ?_, ?_, ?_⟩
      · refine .ofDigits (fun c hc ↦ hdigits c (List.mem_of_mem_take hc))
          (fun c hc ↦ hdigits c (List.mem_of_mem_drop hc)) ?_
        simp [hne]
      · simp [NumberText.chars]
      · apply value_eq_toBinary64
        · simp [hread]
        · simp only [Option.elim_none, Option.getD_some, List.length_drop]
          omega

/-! ## Mantissa and exponent -/

def exponentText (leastDigits : Nat) (exponent : Int) : ExponentText where
  mark := ['e', if exponent < 0 then '-' else '+']
  negative := decide (exponent < 0)
  digits := zeros (leastDigits - (digitsOf exponent.natAbs).length) ++ digitsOf exponent.natAbs

theorem exponentText_valid (leastDigits : Nat) (exponent : Int) :
    (exponentText leastDigits exponent).Valid := by
  refine ⟨⟨'e', .inl rfl, ?_⟩, (allDigits_zeros _).append (allDigits_digitsOf _), ?_⟩
  · by_cases h : exponent < 0 <;> simp [exponentText, h]
  · simp [exponentText, digitsOf, Nat.toDigits_ne_nil]

theorem exponentText_value (leastDigits : Nat) (exponent : Int) :
    (exponentText leastDigits exponent).value = exponent := by
  simp only [ExponentText.value, exponentText, readDigits_zeros_append, readDigits_digitsOf,
    decide_eq_true_eq]
  split <;> omega

def pointed (digits : List Char) : List Char := if digits = [] then [] else '.' :: digits

/-- The mantissa is the first digit and, after a point, the others. -/
theorem exists_mantissa (d : Decimal) : ∃ first fraction,
    digitsOf d.digits = first :: fraction ∧ mantissa d = first :: pointed fraction := by
  cases hdigits : digitsOf d.digits with
  | nil => exact absurd hdigits Nat.toDigits_ne_nil
  | cons first rest =>
    refine ⟨first, rest, rfl, ?_⟩
    rw [mantissa, hdigits]
    cases rest with
    | nil => rfl
    | cons second rest => rfl

def fractionOf (digits : List Char) : Option (List Char) :=
  if digits = [] then none else some digits

theorem getD_fractionOf (digits : List Char) : (fractionOf digits).getD [] = digits := by
  cases digits with
  | nil => rfl
  | cons first rest => rfl

theorem elim_fractionOf (digits : List Char) :
    (fractionOf digits).elim [] ('.' :: ·) = pointed digits := by
  cases digits with
  | nil => rfl
  | cons first rest => rfl

/-- The layout as mantissa and exponent is a written number, and that of the decimal. -/
theorem exists_exponential (leastDigits : Nat) (d : Decimal) :
    ∃ n : NumberText, n.Valid ∧ n.chars = exponential leastDigits d ∧
      n.value = d.toBinary64 false := by
  have hdigits := allDigits_digitsOf d.digits
  have hread := readDigits_digitsOf d.digits
  have hpoint := pointPosition_eq d
  have hleading : d.leadingExponent = d.pointPosition - 1 := rfl
  have hvalue := exponentText_value leastDigits d.leadingExponent
  obtain ⟨first, fraction, hcons, hmantissa⟩ := exists_mantissa d
  rw [hcons] at hdigits hread hpoint
  obtain ⟨hfirst, hfraction⟩ := List.forall_mem_cons.mp hdigits
  refine ⟨⟨[first], fractionOf fraction, some (exponentText leastDigits d.leadingExponent)⟩,
    ?_, ?_, ?_⟩
  · refine ⟨List.forall_mem_singleton.mpr hfirst, ?_, by simp, fun e he ↦ ?_⟩
    · rwa [getD_fractionOf]
    · cases he
      exact exponentText_valid leastDigits d.leadingExponent
  · rw [exponential, hmantissa]
    simp [NumberText.chars, elim_fractionOf, ExponentText.chars, exponentText]
  · apply value_eq_toBinary64
    · rw [getD_fractionOf]
      exact hread
    · rw [getD_fractionOf, Option.elim_some, hvalue]
      rw [List.length_cons] at hpoint
      omega

/-- The text of a decimal is a written number, and that of the decimal. -/
theorem exists_decimalText (d : Decimal) :
    ∃ n : NumberText,
      n.Valid ∧ n.chars = Binary64.decimalText d ∧ n.value = d.toBinary64 false := by
  rw [Binary64.decimalText]
  split
  · exact exists_positional d
  · exact exists_exponential _ d

/-! ## Widths -/

theorem length_mantissa_le (d : Decimal) :
    (mantissa d).length ≤ (digitsOf d.digits).length + 1 := by
  rw [mantissa]
  split
  case h_1 first second rest hcons => simp [hcons]
  case h_2 => exact Nat.le_succ _

section

variable {d : Decimal} (hdigits : (digitsOf d.digits).length ≤ enoughDigits)

include hdigits

/-- The longest has its first digit as far after its point as it may. -/
theorem length_positional_le (places : Nat) (hleast : -(places : Int) ≤ d.leadingExponent)
    (hend : d.leadingExponent < 16) : (positional d).length ≤ 18 + places := by
  have hpos := length_digitsOf_pos d.digits
  have hpoint := pointPosition_eq d
  rw [enoughDigits] at hdigits
  rw [Decimal.leadingExponent] at hleast hend
  rw [positional]
  split
  case isTrue hexponent =>
    rw [List.length_append, length_zeros]
    omega
  case isFalse hexponent =>
    split
    case isTrue hbefore =>
      simp only [List.length_cons, List.length_append, length_zeros]
      omega
    case isFalse hinside =>
      simp only [List.length_cons, List.length_append, List.length_take, List.length_drop]
      omega

theorem length_exponential_le {leastDigits : Nat} (hleast : leastDigits ≤ 3)
    (hexponent : d.leadingExponent.natAbs < tenPow 3) :
    (exponential leastDigits d).length ≤ 23 := by
  have hmantissa := length_mantissa_le d
  have hplaces := (length_digitsOf_le_iff (by decide)).mpr hexponent
  rw [enoughDigits] at hdigits
  rw [exponential]
  simp only [List.length_append, List.length_cons, length_zeros]
  omega

/-- The text of seventeen digits and an exponent of three takes 23 characters at most. -/
theorem length_decimalText_le (hexponent : d.leadingExponent.natAbs < tenPow 3) :
    (Binary64.decimalText d).length ≤ 23 := by
  rw [Binary64.decimalText]
  split
  case isTrue hfull =>
    exact (length_positional_le hdigits 4 hfull.1 hfull.2).trans (Nat.le_succ 22)
  case isFalse => exact length_exponential_le hdigits (by decide) hexponent

end

end Numeral

end Reckoner
