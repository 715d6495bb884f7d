import Reckoner.Proofs.Binary64.Decimal
import Reckoner.Proofs.Binary64.Finite

/-!
# Rounding Keeps the Order

Of two quotients or two decimals, the smaller is not rounded to the greater magnitude.  Where both
are rounded to multiples of the same spacing this is so because the nearest whole numbers keep the
order; otherwise there is a power of two between them, which neither is rounded across.

A rounded whole number is a whole number.
-/

namespace Reckoner

namespace Binary64

variable {num den num' den' : Nat}

/-! ## Rounded quotients in order -/

theorem divNearest_mono (h : num ≤ num') : divNearest num den ≤ divNearest num' den := by
  have hquotient : num / den ≤ num' / den := Nat.div_le_div_right h
  rcases Nat.lt_or_eq_of_le hquotient with hlt | heq
  · calc divNearest num den ≤ num / den + 1 := divNearest_le num den
      _ ≤ num' / den := hlt
      _ ≤ divNearest num' den := le_divNearest num' den
  · have hsplit := Nat.div_add_mod num den
    have hsplit' := Nat.div_add_mod num' den
    have hrest : num % den ≤ num' % den := by
      rw [heq] at hsplit
      omega
    rw [divNearest, divNearest, heq]
    split <;> split <;> omega

/-- Over the same denominator the rounded quotients are in the order of the numerators. -/
theorem roundUnits_mono_num (hden : 0 < den) (h : num ≤ num') :
    roundUnits num den ≤ roundUnits num' den := by
  have hquotient : num / den ≤ num' / den := Nat.div_le_div_right h
  by_cases hspacing : spacing (num / den) = spacing (num' / den)
  · rw [roundUnits, roundUnits, hspacing]
    exact Nat.mul_le_mul_right _ (divNearest_mono h)
  · have hlog : (num / den).log2 < (num' / den).log2 := by
      apply Nat.lt_of_le_of_ne (log2_le_log2 hquotient)
      intro heq
      rw [spacing, spacing, heq] at hspacing
      exact hspacing rfl
    have hne : num' / den ≠ 0 := by
      intro hzero
      rw [hzero, Nat.log2_zero] at hlog
      exact Nat.not_lt_zero _ hlog
    have hpower : num ≤ twoPow (num' / den).log2 * den := by
      have hnum : num < twoPow ((num / den).log2 + 1) * den :=
        (Nat.div_lt_iff_lt_mul hden).mp (lt_twoPow_log2 (num / den))
      exact Nat.le_of_lt (Nat.lt_of_lt_of_le hnum (Nat.mul_le_mul_right den (twoPow_le hlog)))
    calc roundUnits num den ≤ twoPow (num' / den).log2 :=
          roundUnits_le_of_aligned (twoPow_aligned _) hpower
      _ ≤ roundUnits num' den := twoPow_log2_le_roundUnits hne

/-- Rounded quotients are in the order of the quotients. -/
theorem roundUnits_mono (hden : 0 < den) (hden' : 0 < den') (h : num * den' ≤ num' * den) :
    roundUnits num den ≤ roundUnits num' den' := by
  calc roundUnits num den = roundUnits (den' * num) (den' * den) :=
        (roundUnits_mul_left hden' num den).symm
    _ ≤ roundUnits (den * num') (den' * den) := by
        apply roundUnits_mono_num (Nat.mul_pos hden' hden)
        rwa [Nat.mul_comm den' num, Nat.mul_comm den num']
    _ = roundUnits num' den' := by
        rw [Nat.mul_comm den' den, roundUnits_mul_left hden]

/-! ## Decimals in order -/

section

variable {negative : Bool} {m m' : Magnitude} {digits digits' : Nat} {exponent exponent' : Int}

theorem roundUnits_of_ofQuotient (h : ofQuotient negative num den = .finite negative m) :
    roundUnits num den = m.units := by
  rw [ofQuotient] at h
  split at h
  case isTrue =>
    cases h
    rfl
  case isFalse => cases h

/-- Decimals that are read as magnitudes are read as such in their order. -/
theorem units_le_of_decimalValue_le (h : ofDecimal false digits exponent = .finite false m)
    (h' : ofDecimal false digits' exponent' = .finite false m')
    (hle : decimalValue digits exponent ≤ decimalValue digits' exponent') :
    m.units ≤ m'.units := by
  obtain ⟨num, den, hden, hvalue⟩ := exists_quotient digits exponent
  obtain ⟨num', den', hden', hvalue'⟩ := exists_quotient digits' exponent'
  rw [ofDecimal_eq_ofQuotient false hden hvalue] at h
  rw [ofDecimal_eq_ofQuotient false hden' hvalue'] at h'
  rw [← roundUnits_of_ofQuotient h, ← roundUnits_of_ofQuotient h']
  have hquotient : (num : ℚ) / den ≤ num' / den' := by
    rw [hvalue, hvalue']
    exact mul_le_mul_of_nonneg_right hle (Nat.cast_nonneg _)
  rw [div_le_div_iff₀ (Nat.cast_pos.mpr hden) (Nat.cast_pos.mpr hden')] at hquotient
  exact roundUnits_mono hden hden' (by exact_mod_cast hquotient)

/-! ## Whole numbers -/

/-- A rounded whole number is a whole number. -/
theorem unitsPerOne_dvd_roundUnits (n : Nat) : unitsPerOne ∣ roundUnits (n * unitsPerOne) 1 := by
  by_cases hfine : (n * unitsPerOne).log2 - 52 ≤ unitExponent
  · have haligned : spacing (n * unitsPerOne) ∣ n * unitsPerOne :=
      Nat.dvd_trans (twoPow_dvd hfine) (Nat.dvd_mul_left _ _)
    rw [roundUnits_of_aligned haligned]
    exact Nat.dvd_mul_left _ _
  · rw [roundUnits, Nat.div_one]
    exact Nat.dvd_trans (twoPow_dvd (Nat.le_of_not_le hfine)) (Nat.dvd_mul_left _ _)

end

end Binary64

end Reckoner
