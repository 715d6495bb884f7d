import Mathlib.Algebra.Order.Field.Power
import Mathlib.Data.Rat.Cast.Order
import Mathlib.Tactic.FieldSimp
import Mathlib.Tactic.GCongr
import Mathlib.Tactic.Linarith
import Mathlib.Tactic.NormNum
import Mathlib.Tactic.Positivity
import Mathlib.Tactic.Ring
import Reckoner.Proofs.Binary64.Rounding

/-!
# Decimals as Rounded Quotients

A decimal has a rational value, and the double nearest to it is the rounded quotient of any two
numbers with this value, in units.  The shortcuts for very large and very small exponents do not
show, and two ways to write one number give one double.
-/

namespace Reckoner

theorem twoPow_eq (n : Nat) : twoPow n = 2 ^ n := rfl

theorem tenPow_eq (n : Nat) : tenPow n = 10 ^ n := rfl

theorem cast_tenPow (n : Nat) : (tenPow n : ℚ) = 10 ^ n := Nat.cast_pow 10 n

theorem tenPow_pos (n : Nat) : 0 < tenPow n := Nat.pow_pos (by decide)

theorem tenPow_le {m n : Nat} (h : m ≤ n) : tenPow m ≤ tenPow n :=
  Nat.pow_le_pow_right (by decide) h

def decimalValue (digits : Nat) (exponent : Int) : ℚ := digits * (10 : ℚ) ^ exponent

theorem decimalValue_of_nonneg {exponent : Int} (h : 0 ≤ exponent) (digits : Nat) :
    decimalValue digits exponent = (digits * tenPow exponent.toNat : Nat) := by
  obtain ⟨n, rfl⟩ := Int.eq_ofNat_of_zero_le h
  rw [decimalValue, Nat.cast_mul, cast_tenPow, Int.toNat_natCast, zpow_natCast]

theorem decimalValue_of_neg {exponent : Int} (h : exponent < 0) (digits : Nat) :
    decimalValue digits exponent = digits / tenPow (-exponent).toNat := by
  obtain ⟨n, hn⟩ : ∃ n : Nat, exponent = -(n : Int) := ⟨(-exponent).toNat, by omega⟩
  subst hn
  rw [decimalValue, neg_neg, Int.toNat_natCast, cast_tenPow, zpow_neg, zpow_natCast, div_eq_mul_inv]

namespace Binary64

variable {negative : Bool} {digits num den : Nat} {exponent : Int}

/-! ## The shortcuts -/

theorem twoPow_le_tenPow : twoPow 1024 ≤ tenPow 309 := by
  have hbase : (2 ^ 93) ^ 11 ≤ (10 ^ 28) ^ 11 := Nat.pow_le_pow_left (by norm_num) 11
  calc twoPow 1024 = (2 ^ 93) ^ 11 * 2 := by
        rw [← pow_mul, ← pow_succ, twoPow_eq]
    _ ≤ (10 ^ 28) ^ 11 * 10 := Nat.mul_le_mul hbase (by norm_num)
    _ = tenPow 309 := by
        rw [← pow_mul, ← pow_succ, tenPow_eq]

/-- A decimal with an exponent that is too large overflows. -/
theorem overflow_le_div (hdigits : digits ≠ 0) (hexponent : overflowExponent ≤ exponent)
    (hden : 0 < den) (h : num = digits * tenPow exponent.toNat * unitsPerOne * den) :
    overflow ≤ num / den := by
  have hlarge : tenPow 309 ≤ tenPow exponent.toNat := by
    apply tenPow_le
    rw [overflowExponent] at hexponent
    omega
  rw [h, Nat.mul_div_cancel _ hden]
  calc overflow = 1 * twoPow 1024 * unitsPerOne := by
        rw [Nat.one_mul, overflow, twoPow_add, unitsPerOne]
    _ ≤ digits * tenPow exponent.toNat * unitsPerOne := by
        apply Nat.mul_le_mul_right
        exact Nat.mul_le_mul (Nat.one_le_iff_ne_zero.mpr hdigits) (twoPow_le_tenPow.trans hlarge)

/-- A decimal whose size is negligible is less than half a unit. -/
theorem two_mul_lt_of_negligible {places : Nat} (hnegligible : negligible digits places)
    (hden : 0 < den) (h : num * tenPow places = digits * unitsPerOne * den) : 2 * num < den := by
  have hsize : digits.log2 + 1076 ≤ 3 * places := by
    simpa [negligible] using hnegligible
  have hsmall : 2 * (digits * unitsPerOne) < tenPow places := by
    calc 2 * (digits * unitsPerOne) < 2 * (twoPow (digits.log2 + 1) * unitsPerOne) := by
          apply Nat.mul_lt_mul_of_pos_left _ (by decide)
          exact Nat.mul_lt_mul_of_pos_right (lt_twoPow_log2 digits) unitsPerOne_pos
      _ = twoPow (digits.log2 + 1076) := by
          rw [unitsPerOne, ← twoPow_add, Nat.mul_comm]
          exact (twoPow_add _ 1).symm
      _ ≤ twoPow (3 * places) := twoPow_le hsize
      _ = 8 ^ places := pow_mul 2 3 places
      _ ≤ tenPow places := Nat.pow_le_pow_left (by decide) places
  have hscaled : 2 * num * tenPow places < den * tenPow places := by
    calc 2 * num * tenPow places = 2 * (digits * unitsPerOne) * den := by
          rw [Nat.mul_assoc, h, Nat.mul_assoc 2]
      _ < tenPow places * den := Nat.mul_lt_mul_of_pos_right hsmall hden
      _ = den * tenPow places := Nat.mul_comm _ _
  exact Nat.lt_of_mul_lt_mul_right hscaled

/-! ## Decimals and quotients -/

theorem ofDecimal_zero (negative : Bool) (exponent : Int) :
    ofDecimal negative 0 exponent = .finite negative .zero := if_pos rfl

/-- A decimal is rounded as any quotient of its value in units. -/
theorem ofDecimal_eq_ofQuotient (negative : Bool) (hden : 0 < den)
    (h : (num : ℚ) / den = decimalValue digits exponent * unitsPerOne) :
    ofDecimal negative digits exponent = ofQuotient negative num den := by
  have hden' : (den : ℚ) ≠ 0 := Nat.cast_ne_zero.mpr (Nat.ne_of_gt hden)
  rw [div_eq_iff hden'] at h
  by_cases hzero : digits = 0
  · have hnum : num = 0 := by
      have hcast : (num : ℚ) = 0 := by
        rw [h, hzero, decimalValue, Nat.cast_zero, zero_mul, zero_mul, zero_mul]
      exact_mod_cast hcast
    rw [hzero, ofDecimal_zero, ofQuotient_eq_zero negative (by omega)]
  rcases Int.lt_or_le exponent 0 with hneg | hnonneg
  · have hvalue : num * tenPow (-exponent).toNat = digits * unitsPerOne * den := by
      have hten : (tenPow (-exponent).toNat : ℚ) ≠ 0 :=
        Nat.cast_ne_zero.mpr (Nat.ne_of_gt (tenPow_pos _))
      rw [decimalValue_of_neg hneg] at h
      field_simp at h
      have hcast : ((num * tenPow (-exponent).toNat : Nat) : ℚ) =
          (digits * unitsPerOne * den : Nat) := by
        push_cast
        linarith
      exact_mod_cast hcast
    rw [ofDecimal, if_neg hzero, if_neg (by rw [overflowExponent]; omega), if_neg (by omega)]
    dsimp only
    split
    case isTrue hnegligible =>
      rw [ofQuotient_eq_zero negative (two_mul_lt_of_negligible hnegligible hden hvalue)]
    case isFalse =>
      exact ofQuotient_congr negative (tenPow_pos _) hden hvalue.symm
  · have hvalue : num = digits * tenPow exponent.toNat * unitsPerOne * den := by
      rw [decimalValue_of_nonneg hnonneg] at h
      exact_mod_cast h
    rw [ofDecimal, if_neg hzero]
    by_cases hlarge : exponent ≥ overflowExponent
    · rw [if_pos hlarge, ofQuotient_eq_infinite negative (overflow_le_div hzero hlarge hden hvalue)]
    · rw [if_neg hlarge, if_pos hnonneg]
      apply ofQuotient_congr negative Nat.one_pos hden
      rw [Nat.mul_one, hvalue]

theorem exists_quotient (digits : Nat) (exponent : Int) : ∃ num den : Nat, 0 < den ∧
    (num : ℚ) / den = decimalValue digits exponent * unitsPerOne := by
  rcases Int.lt_or_le exponent 0 with hneg | hnonneg
  · refine ⟨digits * unitsPerOne, tenPow (-exponent).toNat, tenPow_pos _, ?_⟩
    rw [decimalValue_of_neg hneg, Nat.cast_mul]
    ring
  · refine ⟨digits * tenPow exponent.toNat * unitsPerOne, 1, Nat.one_pos, ?_⟩
    rw [decimalValue_of_nonneg hnonneg]
    push_cast
    ring

/-- Two ways to write one number give one double. -/
theorem ofDecimal_congr {digits' : Nat} {exponent' : Int} (negative : Bool)
    (h : decimalValue digits exponent = decimalValue digits' exponent') :
    ofDecimal negative digits exponent = ofDecimal negative digits' exponent' := by
  obtain ⟨num, den, hden, hvalue⟩ := exists_quotient digits exponent
  rw [ofDecimal_eq_ofQuotient negative hden hvalue]
  rw [h] at hvalue
  rw [ofDecimal_eq_ofQuotient negative hden hvalue]

/-- A decimal whose value is that of a magnitude gives this magnitude. -/
theorem ofDecimal_eq_finite (negative : Bool) {m : Magnitude}
    (h : (m.units : ℚ) = decimalValue digits exponent * unitsPerOne) :
    ofDecimal negative digits exponent = .finite negative m := by
  have hvalue : (m.units : ℚ) / (1 : Nat) = decimalValue digits exponent * unitsPerOne := by
    rw [Nat.cast_one, div_one, h]
  rw [ofDecimal_eq_ofQuotient negative Nat.one_pos hvalue, ofQuotient_units]

/-! ## Decimals near a magnitude -/

section

variable {m : Magnitude}

/-- A decimal less than half a spacing above a magnitude gives the magnitude. -/
theorem ofDecimal_eq_finite_of_le (negative : Bool)
    (hle : (m.units : ℚ) ≤ decimalValue digits exponent * unitsPerOne)
    (habove : decimalValue digits exponent * unitsPerOne < m.units + (spacing m.units : ℚ) / 2) :
    ofDecimal negative digits exponent = .finite negative m := by
  obtain ⟨num, den, hden, hvalue⟩ := exists_quotient digits exponent
  have hden' : (0 : ℚ) < den := Nat.cast_pos.mpr hden
  rw [← hvalue, le_div_iff₀ hden'] at hle
  rw [← hvalue, div_lt_iff₀ hden'] at habove
  have hnum : ((2 * num : Nat) : ℚ) < (2 * (m.units * den) + spacing m.units * den : Nat) := by
    push_cast
    linarith
  rw [ofDecimal_eq_ofQuotient negative hden hvalue]
  exact ofQuotient_eq_finite negative
    (roundUnits_eq_of_le hden (by exact_mod_cast hle) (by exact_mod_cast hnum))

/-- So does one less than half a spacing below it, if the spacing stays the same there. -/
theorem ofDecimal_eq_finite_of_lt (negative : Bool)
    (hlt : decimalValue digits exponent * unitsPerOne < m.units)
    (hbelow : m.units - (spacing m.units : ℚ) / 2 < decimalValue digits exponent * unitsPerOne)
    (hpower : m.units = twoPow m.units.log2 → spacing m.units = 1) :
    ofDecimal negative digits exponent = .finite negative m := by
  obtain ⟨num, den, hden, hvalue⟩ := exists_quotient digits exponent
  have hden' : (0 : ℚ) < den := Nat.cast_pos.mpr hden
  rw [← hvalue, div_lt_iff₀ hden'] at hlt
  rw [← hvalue, lt_div_iff₀ hden'] at hbelow
  have hnum : ((2 * (m.units * den) : Nat) : ℚ) < (2 * num + spacing m.units * den : Nat) := by
    push_cast
    linarith
  rw [ofDecimal_eq_ofQuotient negative hden hvalue]
  exact ofQuotient_eq_finite negative
    (roundUnits_eq_of_lt hden (by exact_mod_cast hlt) (by exact_mod_cast hnum) hpower)

end

end Binary64

end Reckoner
