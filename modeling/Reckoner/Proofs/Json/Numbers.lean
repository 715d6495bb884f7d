import Reckoner.Json.Number
import Reckoner.Proofs.Binary64.Nearest
import Reckoner.Proofs.Numeral.Layout

/-!
# JSON Numbers Read and Written

What is read is an integer of 64 bits, with a sign or without, or a finite double: digits are taken
as long as they fit, and a power of ten is multiplied by only as long as the product stays finite.
What is written is a minus or nothing and one number without a sign, 24 characters at most, and this
number is read as the double that is nearest.
-/

namespace Reckoner.Json

open Binary64

/-! ## Numbers that are read -/

/-- An integer of 64 bits, with a sign or without, or a finite double. -/
def Number.InRange : Number → Prop
  | integer value => -(twoPow 63 : Int) ≤ value ∧ value < twoPow 64
  | real x => x.isFinite

theorem leadingDigits_le {n : Nat} (h : n ≤ maxWord) (digits : List Char) :
    (leadingDigits n digits).1 ≤ maxWord := by
  induction digits generalizing n with
  | nil => exact h
  | cons c rest ih =>
    simp only [leadingDigits]
    split
    case isTrue hnext => exact ih hnext
    case isFalse => exact h

/-- A finite quotient keeps the sign that it is given. -/
theorem exists_ofQuotient_eq_finite {negative : Bool} {num den : Nat}
    (h : (ofQuotient negative num den).isFinite) :
    ∃ m, ofQuotient negative num den = .finite negative m := by
  rw [ofQuotient] at h ⊢
  split at h
  case isTrue hbelow => exact ⟨_, dif_pos hbelow⟩
  case isFalse => cases h

theorem ofQuotient_isFinite_of_le_maxWord (negative : Bool) {n : Nat} (h : n ≤ maxWord) :
    (ofQuotient negative (n * unitsPerOne) 1).isFinite := by
  have hword : n * unitsPerOne ≤ twoPow (64 + unitExponent) * 1 := by
    rw [Nat.mul_one, twoPow_add, ← unitsPerOne]
    apply Nat.mul_le_mul_right
    rw [maxWord] at h
    omega
  exact ofQuotient_isFinite_of_le_twoPow negative (by decide) hword

theorem ofNat_isFinite {n : Nat} (h : n ≤ maxWord) : (Binary64.ofNat n).isFinite :=
  ofQuotient_isFinite_of_le_maxWord false h

/-- The greatest power of ten that is multiplied by is finite, and all are at least one. -/
theorem exists_tenTo {k : Nat} (h : k ≤ tenStep) :
    ∃ m : Magnitude, tenTo k = .finite false m ∧ unitsPerOne ≤ m.units := by
  have hvalue : ((tenPow k * unitsPerOne : Nat) : ℚ) / (1 : Nat) =
      decimalValue 1 k * unitsPerOne := by
    rw [decimalValue_of_nonneg (Int.natCast_nonneg k), Nat.cast_one, div_one, Int.toNat_natCast,
      Nat.one_mul, Nat.cast_mul]
  have hgreatest : roundUnits (tenPow tenStep * unitsPerOne) 1 < overflow := by decide +kernel
  have hround : roundUnits (tenPow k * unitsPerOne) 1 < overflow :=
    (roundUnits_mono_num Nat.one_pos (Nat.mul_le_mul_right _ (tenPow_le h))).trans_lt hgreatest
  have hone : roundUnits unitsPerOne 1 = unitsPerOne := roundUnits_of_aligned (twoPow_aligned _)
  refine ⟨⟨_, hround, roundUnits_aligned _ _⟩, ?_, ?_⟩
  · rw [tenTo, ofDecimal_eq_ofQuotient false Nat.one_pos hvalue]
    exact ofQuotient_eq_finite false rfl
  · conv_lhs => rw [← hone]
    exact roundUnits_mono_num Nat.one_pos (Nat.le_mul_of_pos_left _ (tenPow_pos k))

theorem div_tenTo_isFinite {x : Binary64} {k : Nat} (hx : x.isFinite) (h : k ≤ tenStep) :
    (x.div (tenTo k)).isFinite := by
  obtain ⟨negative, m, rfl⟩ := exists_finite hx
  obtain ⟨m', hten, hunits⟩ := exists_tenTo h
  have hne : m'.units ≠ 0 := Nat.ne_of_gt (Nat.lt_of_lt_of_le unitsPerOne_pos hunits)
  rw [hten]
  simp only [div, if_neg hne]
  exact ofQuotient_isFinite_of_le _ (m := m) (Nat.mul_le_mul_left _ hunits)

/-- Scaling a finite double does not overflow unnoticed. -/
theorem scaleByTen_isFinite {x value : Binary64} {exponent : Int} (hx : x.isFinite)
    (h : scaleByTen x exponent = some value) : value.isFinite := by
  induction x, exponent using scaleByTen.induct with
  | case1 x exponent hstep hneg =>
    rw [scaleByTen, if_pos hstep, if_pos hneg] at h
    cases h
    exact div_tenTo_isFinite hx hstep
  | case2 x exponent hstep hnonneg product hproduct =>
    rw [scaleByTen, if_pos hstep, if_neg hnonneg] at h
    dsimp only at h
    rw [if_pos hproduct] at h
    cases h
    exact hproduct
  | case3 x exponent hstep hnonneg product hproduct =>
    rw [scaleByTen, if_pos hstep, if_neg hnonneg] at h
    dsimp only at h
    rw [if_neg hproduct] at h
    cases h
  | case4 x exponent hstep hzero =>
    rw [scaleByTen, if_neg hstep, if_pos hzero] at h
    cases h
    exact hx
  | case5 x exponent hstep hzero hpos =>
    rw [scaleByTen, if_neg hstep, if_neg hzero, if_pos hpos] at h
    cases h
  | case6 x exponent hstep hzero hneg ih =>
    rw [scaleByTen, if_neg hstep, if_neg hzero, if_neg hneg] at h
    exact ih (div_tenTo_isFinite hx (Nat.le_refl _)) h

namespace NumberText

variable {t : NumberText} {n : Number}

theorem signed_isFinite {x : Binary64} (h : x.isFinite) : (t.signed x).isFinite := by
  rw [signed]
  split
  · exact neg_isFinite h
  · exact h

theorem real?_inRange {significand : Nat} {exponent : Int} (hsignificand : significand ≤ maxWord)
    (h : t.real? significand exponent = some n) : n.InRange := by
  obtain ⟨x, hx, rfl⟩ := Option.map_eq_some_iff.mp h
  exact signed_isFinite (t := t) (scaleByTen_isFinite (ofNat_isFinite hsignificand) hx)

theorem integer_inRange {magnitude : Nat} (h : magnitude ≤ maxWord) :
    (t.integer magnitude).InRange := by
  have hword := twoPow_pos 64
  rw [maxWord] at h
  rw [integer]
  split
  · constructor <;> omega
  split
  · exact signed_isFinite (t := t) (ofNat_isFinite h)
  case isFalse hmagnitude =>
    rw [not_or] at hmagnitude
    constructor <;> omega

/-- What is read is in range. -/
theorem value?_inRange (h : t.value? = some n) : n.InRange := by
  have hwhole : (leadingDigits 0 t.whole).1 ≤ maxWord := leadingDigits_le (Nat.zero_le _) _
  have hsignificand := leadingDigits_le hwhole t.fraction
  rw [value?] at h
  dsimp only at h
  split at h
  case h_1 =>
    split at h
    · cases h
      exact integer_inRange hwhole
    · exact real?_inRange hsignificand h
  case h_2 =>
    split at h
    · exact real?_inRange hsignificand h
    split at h
    · cases h
      exact signed_isFinite (t := t) rfl
    · cases h

end NumberText

/-! ## The nearest double -/

namespace Number

def units : Number → Int
  | integer value => value * unitsPerOne
  | real (.finite negative m) => signedUnits negative m
  | real _ => 0

def toBinary64 : Number → Binary64
  | integer value => ofQuotient (decide (value < 0)) (value.natAbs * unitsPerOne) 1
  | real x => x

variable {n : Number} {value : Int}

theorem natAbs_le_maxWord (h : (integer value).InRange) : value.natAbs ≤ maxWord := by
  obtain ⟨hlow, hhigh⟩ := h
  have hhalf : twoPow 63 < twoPow 64 := by decide
  rw [maxWord]
  omega

/-- An integer is rounded to a finite double with its sign. -/
theorem exists_toBinary64_integer (h : (integer value).InRange) : ∃ m : Magnitude,
    (integer value).toBinary64 = .finite (decide (value < 0)) m ∧
      roundUnits (value.natAbs * unitsPerOne) 1 = m.units := by
  obtain ⟨m, hm⟩ := exists_ofQuotient_eq_finite
    (ofQuotient_isFinite_of_le_maxWord (decide (value < 0)) (natAbs_le_maxWord h))
  exact ⟨m, hm, roundUnits_of_ofQuotient hm⟩

/-- A number in range is rounded to the nearest double, and a double is kept. -/
theorem exists_toBinary64 (h : n.InRange) :
    ∃ negative m, n.toBinary64 = .finite negative m ∧ IsNearest negative m n.units := by
  cases n with
  | integer value =>
    obtain ⟨m, hm, hround⟩ := exists_toBinary64_integer h
    have hunits : (value * unitsPerOne : Int).natAbs = value.natAbs * unitsPerOne := by
      rw [Int.natAbs_mul, Int.natAbs_natCast]
    have hsign : (value * unitsPerOne : Int) < 0 ↔ value < 0 :=
      lt_iff_lt_of_le_iff_le (mul_nonneg_iff_of_pos_right (Int.natCast_pos.mpr unitsPerOne_pos))
    refine ⟨_, m, hm, ?_⟩
    rw [← hunits] at hround
    have hnearest := isNearest_of_roundUnits hround
    rwa [decide_eq_decide.mpr hsign] at hnearest
  | real x =>
    obtain ⟨negative, m, rfl⟩ := exists_finite h
    exact ⟨negative, m, rfl, isNearest_self negative m⟩

end Number

/-! ## Numbers that are written -/

/-- The text of a decimal is a written number, and that of the decimal. -/
theorem exists_realText (d : Numeral.Decimal) :
    ∃ w : Reckoner.NumberText, w.Valid ∧ w.chars = realText d ∧ w.value = d.toBinary64 false := by
  rw [realText]
  split
  case isFalse => exact Numeral.exists_exponential 1 d
  case isTrue =>
    split
    case isFalse =>
      rw [List.append_nil]
      exact Numeral.exists_positional d
    case isTrue hexponent =>
      refine ⟨⟨Numeral.digitsOf d.digits ++ Numeral.zeros d.exponent.toNat,
        some (Numeral.zeros 1), none⟩, ?_, ?_, ?_⟩
      · exact .ofDigits ((Numeral.allDigits_digitsOf _).append (Numeral.allDigits_zeros _))
          (Numeral.allDigits_zeros 1) (by simp [Numeral.zeros])
      · simp [Reckoner.NumberText.chars, Numeral.positional, hexponent, Numeral.zeros]
      · exact (Numeral.value_zeros _ 1).trans (Numeral.whole_value hexponent)

/-- A whole number is as long as its first digit is far from its point. -/
theorem length_positional_whole {d : Numeral.Decimal} (hexponent : 0 ≤ d.exponent) :
    ((Numeral.positional d).length : Int) = d.leadingExponent + 1 := by
  rw [Numeral.positional, if_pos hexponent, Numeral.Decimal.leadingExponent,
    Numeral.pointPosition_eq, List.length_append, Numeral.length_zeros]
  omega

/-- The longest has seventeen digits after four zeros, or before an exponent of three digits. -/
theorem length_realText_le {d : Numeral.Decimal} (hne : d.digits ≠ 0)
    (hdigits : (Numeral.digitsOf d.digits).length ≤ Numeral.enoughDigits)
    (hexponent : d.leadingExponent.natAbs < tenPow 3) : (realText d).length ≤ 23 := by
  rw [realText]
  split
  case isFalse => exact Numeral.length_exponential_le hdigits (by decide) hexponent
  case isTrue hfull =>
    obtain ⟨hleast, hend⟩ := hfull.resolve_left hne
    split
    case isTrue hwhole =>
      have hlength := length_positional_whole hwhole
      rw [endOfFullExponents] at hend
      simp only [List.length_append, List.length_cons, List.length_nil]
      omega
    case isFalse =>
      rw [List.append_nil]
      exact Numeral.length_positional_le hdigits 5 hleast hend

theorem length_realText_decimalOf_le (m : Magnitude) :
    (realText (Numeral.decimalOf m)).length ≤ 23 := by
  rw [Numeral.decimalOf]
  split
  case isTrue => decide
  case isFalse hne =>
    exact length_realText_le (Numeral.shortest_digits_ne_zero hne)
      (Numeral.length_shortest_digits_le hne) (Numeral.natAbs_shortest_leadingExponent_lt hne)

theorem length_signText_le (negative : Bool) : (Numeral.signText negative).length ≤ 1 := by
  cases negative <;> decide

/-- An integer has twenty digits at most, and one less if it is negative. -/
theorem length_integer_le {value : Int} (h : (Number.integer value).InRange) :
    (Numeral.digitsOf value.natAbs).length ≤ 20 := by
  have hword : maxWord < tenPow 20 := by decide
  exact (Numeral.length_digitsOf_le_iff (by decide)).mpr
    ((Number.natAbs_le_maxWord h).trans_lt hword)

/-- The digits of a whole number are read as the double nearest to it. -/
theorem digitsOf_value (n : Nat) :
    Reckoner.NumberText.value ⟨Numeral.digitsOf n, none, none⟩ =
      ofQuotient false (n * unitsPerOne) 1 := by
  have hvalue : ((n * unitsPerOne : Nat) : ℚ) / (1 : Nat) = decimalValue n 0 * unitsPerOne := by
    rw [decimalValue, zpow_zero, mul_one, Nat.cast_one, div_one, Nat.cast_mul]
  rw [← ofDecimal_eq_ofQuotient false Nat.one_pos hvalue, Reckoner.NumberText.value]
  simp only [Option.getD_none, List.append_nil, Numeral.readDigits_digitsOf, Option.elim_none,
    List.length_nil, Nat.cast_zero, sub_zero]

namespace Number

variable {n : Number}

/-- A number in range is written as a minus or nothing and a written number, which is read as the
nearest double.  It takes 24 characters at most. -/
theorem exists_text (h : n.InRange) :
    ∃ negative m, ∃ w : Reckoner.NumberText, n.toBinary64 = .finite negative m ∧ w.Valid ∧
      w.value = .finite false m ∧ n.text.toList = Numeral.signText negative ++ w.chars ∧
      n.text.length ≤ 24 := by
  cases n with
  | integer value =>
    obtain ⟨m, hm, hround⟩ := exists_toBinary64_integer h
    refine ⟨_, m, ⟨Numeral.digitsOf value.natAbs, none, none⟩, hm, ?_, ?_, ?_, ?_⟩
    · exact .ofDigits (Numeral.allDigits_digitsOf _) .nil (by simp [Numeral.digitsOf])
    · rw [digitsOf_value]
      exact ofQuotient_eq_finite false hround
    · simp [text, Reckoner.NumberText.chars]
    · have hsign := length_signText_le (decide (value < 0))
      have hdigits := length_integer_le h
      rw [text, String.length_ofList, List.length_append]
      omega
  | real x =>
    obtain ⟨negative, m, rfl⟩ := exists_finite h
    obtain ⟨w, hvalid, hchars, hvalue⟩ := exists_realText (Numeral.decimalOf m)
    refine ⟨negative, m, w, rfl, hvalid, ?_, ?_, ?_⟩
    · rw [hvalue, Numeral.decimalOf_toBinary64]
    · rw [text, String.toList_ofList, hchars]
    · have hsign := length_signText_le negative
      have hdecimal := length_realText_decimalOf_le m
      rw [text, String.length_ofList, List.length_append]
      omega

end Number

end Reckoner.Json
