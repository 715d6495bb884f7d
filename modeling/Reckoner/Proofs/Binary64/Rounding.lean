import Reckoner.Binary64.Decimal

/-!
# Rounding Quotients and Decimals

A rounded quotient depends on the value of the quotient only, it is exact on magnitudes, zero below
half a unit and infinite from 2^1024 on.  Hence the two shortcuts that reading a decimal takes for
very large and very small exponents do not show: every decimal is one rounded quotient, and two
ways to write one number give one double.
-/

namespace Reckoner

theorem Magnitude.ext {m m' : Magnitude} (h : m.units = m'.units) : m = m' := by
  cases m
  cases m'
  cases h
  rfl

namespace Binary64

variable {num den num' den' : Nat}

/-! ## Quotients of one value -/

theorem divNearest_mul_left {k : Nat} (hk : 0 < k) (num den : Nat) :
    divNearest (k * num) (k * den) = divNearest num den := by
  have hless : 2 * (k * (num % den)) < k * den ↔ 2 * (num % den) < den := by
    rw [Nat.mul_left_comm]
    exact Nat.mul_lt_mul_left hk
  have heq : 2 * (k * (num % den)) = k * den ↔ 2 * (num % den) = den := by
    rw [Nat.mul_left_comm]
    exact Nat.mul_left_cancel_iff hk
  simp only [divNearest, Nat.mul_div_mul_left num den hk, Nat.mul_mod_mul_left, hless, heq]

theorem roundUnits_mul_left {k : Nat} (hk : 0 < k) (num den : Nat) :
    roundUnits (k * num) (k * den) = roundUnits num den := by
  simp only [roundUnits, Nat.mul_div_mul_left num den hk, Nat.mul_assoc, divNearest_mul_left hk]

theorem roundUnits_congr (hden : 0 < den) (hden' : 0 < den') (h : num * den' = num' * den) :
    roundUnits num den = roundUnits num' den' := by
  calc roundUnits num den = roundUnits (den' * num) (den' * den) :=
        (roundUnits_mul_left hden' num den).symm
    _ = roundUnits (den * num') (den * den') := by
        rw [Nat.mul_comm den' num, h, Nat.mul_comm num' den, Nat.mul_comm den' den]
    _ = roundUnits num' den' := roundUnits_mul_left hden num' den'

theorem ofQuotient_eq_of_roundUnits (negative : Bool)
    (h : roundUnits num den = roundUnits num' den') :
    ofQuotient negative num den = ofQuotient negative num' den' := by
  simp only [ofQuotient, h]

/-- A rounded quotient depends on the value of the quotient only. -/
theorem ofQuotient_congr (negative : Bool) (hden : 0 < den) (hden' : 0 < den')
    (h : num * den' = num' * den) :
    ofQuotient negative num den = ofQuotient negative num' den' :=
  ofQuotient_eq_of_roundUnits negative (roundUnits_congr hden hden' h)

/-! ## Exact, vanishing and overflowing quotients -/

theorem unitsPerOne_pos : 0 < unitsPerOne := twoPow_pos _

theorem spacing_pos (n : Nat) : 0 < spacing n := twoPow_pos _

theorem divNearest_mul_self (k : Nat) (hden : 0 < den) : divNearest (k * den) den = k := by
  simp [divNearest, Nat.mul_div_cancel k hden, hden]

theorem roundUnits_of_aligned {n : Nat} (haligned : spacing n ∣ n) : roundUnits n 1 = n := by
  have hpos := spacing_pos n
  rw [roundUnits, Nat.div_one, Nat.one_mul]
  generalize spacing n = step at haligned hpos
  obtain ⟨k, hk⟩ := haligned
  rw [hk, Nat.mul_comm step k, divNearest_mul_self k hpos]

theorem roundUnits_units (m : Magnitude) : roundUnits m.units 1 = m.units :=
  roundUnits_of_aligned m.aligned

/-- A quotient that is rounded to the units of a magnitude is rounded to the magnitude. -/
theorem ofQuotient_eq_finite (negative : Bool) {m : Magnitude}
    (h : roundUnits num den = m.units) : ofQuotient negative num den = .finite negative m := by
  have hbelow : roundUnits num den < overflow := h.symm ▸ m.below
  rw [ofQuotient, dif_pos hbelow]
  exact congrArg _ (Magnitude.ext h)

/-- A magnitude is rounded to itself. -/
theorem ofQuotient_units (negative : Bool) (m : Magnitude) :
    ofQuotient negative m.units 1 = .finite negative m :=
  ofQuotient_eq_finite negative (roundUnits_units m)

theorem roundUnits_eq_zero (h : 2 * num < den) : roundUnits num den = 0 := by
  have hquotient : num / den = 0 := Nat.div_eq_of_lt (by omega)
  have hrest : num % den = num := Nat.mod_eq_of_lt (by omega)
  have hspacing : spacing 0 = 1 := rfl
  simp [roundUnits, divNearest, hquotient, hrest, hspacing, h]

/-- What is less than half a unit vanishes. -/
theorem ofQuotient_eq_zero (negative : Bool) (h : 2 * num < den) :
    ofQuotient negative num den = .finite negative .zero :=
  ofQuotient_eq_finite negative (roundUnits_eq_zero h)

theorem le_divNearest (num den : Nat) : num / den ≤ divNearest num den := by
  simp only [divNearest]
  split <;> omega

theorem twoPow_log2_le {n : Nat} (h : n ≠ 0) : twoPow n.log2 ≤ n := Nat.log2_self_le h

/-- Nothing is rounded to less than the power of two below it. -/
theorem twoPow_log2_le_roundUnits (hne : num / den ≠ 0) :
    twoPow (num / den).log2 ≤ roundUnits num den := by
  obtain ⟨k, hk⟩ : spacing (num / den) ∣ twoPow (num / den).log2 := twoPow_dvd (Nat.sub_le _ _)
  have hquotient : k ≤ num / (den * spacing (num / den)) := by
    rw [← Nat.div_div_eq_div_mul, Nat.le_div_iff_mul_le (spacing_pos _), Nat.mul_comm, ← hk]
    exact twoPow_log2_le hne
  calc twoPow (num / den).log2 = k * spacing (num / den) := by rw [hk, Nat.mul_comm]
    _ ≤ divNearest num (den * spacing (num / den)) * spacing (num / den) :=
        Nat.mul_le_mul_right _ (Nat.le_trans hquotient (le_divNearest _ _))

theorem overflow_le_roundUnits (h : overflow ≤ num / den) : overflow ≤ roundUnits num den := by
  have hne : num / den ≠ 0 := Nat.ne_of_gt (Nat.lt_of_lt_of_le overflow_pos h)
  have hlog : overflow ≤ twoPow (num / den).log2 := by
    apply twoPow_le
    apply Nat.not_lt.mp
    intro hlt
    rw [log2_lt_iff hne] at hlt
    exact Nat.not_lt.mpr h hlt
  exact Nat.le_trans hlog (twoPow_log2_le_roundUnits hne)

/-- What is at least 2^1024 overflows. -/
theorem ofQuotient_eq_infinite (negative : Bool) (h : overflow ≤ num / den) :
    ofQuotient negative num den = .infinite negative := by
  rw [ofQuotient, dif_neg]
  exact Nat.not_lt.mpr (overflow_le_roundUnits h)

/-! ## Quotients near a magnitude -/

/-- What is less than half away from a whole number is rounded to it. -/
theorem divNearest_eq_of_near {k : Nat} (hbelow : 2 * (k * den) < 2 * num + den)
    (habove : 2 * num < 2 * (k * den) + den) : divNearest num den = k := by
  have hsplit := Nat.div_add_mod num den
  rcases Nat.lt_or_ge num (k * den) with hlt | hle
  · obtain ⟨j, rfl⟩ : ∃ j, k = j + 1 := Nat.exists_eq_add_one.mpr (by
      apply Nat.pos_of_ne_zero
      rintro rfl
      omega)
    rw [Nat.add_mul, Nat.one_mul] at hbelow habove hlt
    have hquotient : num / den = j := Nat.div_eq_of_lt_le (by omega) (by rw [Nat.succ_mul]; omega)
    rw [hquotient, Nat.mul_comm] at hsplit
    rw [divNearest]
    simp only [hquotient]
    rw [if_neg (by omega)]
  · have hquotient : num / den = k := Nat.div_eq_of_lt_le hle (by rw [Nat.succ_mul]; omega)
    rw [hquotient, Nat.mul_comm] at hsplit
    rw [divNearest]
    simp only [hquotient]
    rw [if_pos (by omega)]

theorem spacing_dvd_twoPow {n k : Nat} (h : n.log2 ≤ k) : spacing n ∣ twoPow k :=
  twoPow_dvd (Nat.le_trans (Nat.sub_le _ _) h)

theorem add_le_of_dvd_of_lt {s a b : Nat} (ha : s ∣ a) (hb : s ∣ b) (h : a < b) : a + s ≤ b := by
  have hgap := Nat.le_of_dvd (by omega) (Nat.dvd_sub hb ha)
  omega

theorem log2_le_log2 {n n' : Nat} (h : n ≤ n') : n.log2 ≤ n'.log2 := by
  by_cases hzero : n = 0
  · rw [hzero, Nat.log2_zero]
    exact Nat.zero_le _
  · exact Nat.le_of_lt_succ ((log2_lt_iff hzero).mpr (Nat.lt_of_le_of_lt h (lt_twoPow_log2 n')))

theorem spacing_le {n n' : Nat} (h : n ≤ n') : spacing n ≤ spacing n' :=
  twoPow_le (Nat.sub_le_sub_right (log2_le_log2 h) 52)

theorem log2_eq_iff {n k : Nat} (h : n ≠ 0) :
    n.log2 = k ↔ twoPow k ≤ n ∧ n < twoPow (k + 1) := Nat.log2_eq_iff h

section

variable {m : Magnitude} {q : Nat}

/-- The spacing stays the same up to the next magnitude above. -/
theorem spacing_eq_of_le (hle : m.units ≤ q) (hlt : q < m.units + spacing m.units) :
    spacing q = spacing m.units := by
  by_cases hzero : m.units = 0
  · have hspacing : spacing 0 = 1 := rfl
    rw [hzero, hspacing] at hlt
    rw [hzero, Nat.lt_one_iff.mp (by omega : q < 1)]
  have hnext : m.units + spacing m.units ≤ twoPow (m.units.log2 + 1) :=
    add_le_of_dvd_of_lt m.aligned (spacing_dvd_twoPow (Nat.le_succ _)) (lt_twoPow_log2 _)
  have hlog : q.log2 = m.units.log2 := by
    rw [log2_eq_iff (by omega)]
    exact ⟨Nat.le_trans (twoPow_log2_le hzero) hle, Nat.lt_of_lt_of_le hlt hnext⟩
  rw [spacing, spacing, hlog]

/-- Down to the next magnitude below it stays the same if it is one, or above a power of two. -/
theorem spacing_eq_of_lt (hlt : q < m.units) (hle : m.units ≤ q + spacing m.units)
    (hpower : m.units = twoPow m.units.log2 → spacing m.units = 1) :
    spacing q = spacing m.units := by
  by_cases hone : spacing m.units = 1
  · have hsmall := spacing_le (Nat.le_of_lt hlt)
    have hpos := spacing_pos q
    omega
  · have hne : m.units ≠ 0 := by omega
    have hfloor := twoPow_log2_le hne
    have hprevious : twoPow m.units.log2 + spacing m.units ≤ m.units := by
      apply add_le_of_dvd_of_lt (spacing_dvd_twoPow (Nat.le_refl _)) m.aligned
      apply Nat.lt_of_le_of_ne hfloor
      intro heq
      exact hone (hpower heq.symm)
    have hpos := twoPow_pos m.units.log2
    have hlog : q.log2 = m.units.log2 := by
      rw [log2_eq_iff (by omega)]
      exact ⟨by omega, Nat.lt_trans hlt (lt_twoPow_log2 _)⟩
    rw [spacing, spacing, hlog]

theorem roundUnits_eq_of_spacing (hspacing : spacing (num / den) = spacing m.units)
    (hbelow : 2 * (m.units * den) < 2 * num + spacing m.units * den)
    (habove : 2 * num < 2 * (m.units * den) + spacing m.units * den) :
    roundUnits num den = m.units := by
  rw [roundUnits, hspacing]
  have haligned := m.aligned
  generalize spacing m.units = step at hbelow habove haligned
  obtain ⟨k, hk⟩ := haligned
  have hscaled : m.units * den = k * (den * step) := by
    rw [hk, Nat.mul_comm step k, Nat.mul_assoc, Nat.mul_comm step den]
  rw [hscaled, Nat.mul_comm step den] at hbelow habove
  rw [divNearest_eq_of_near hbelow habove, hk, Nat.mul_comm]

/-- What is less than half a spacing above a magnitude is rounded to it. -/
theorem roundUnits_eq_of_le (hden : 0 < den) (hle : m.units * den ≤ num)
    (habove : 2 * num < 2 * (m.units * den) + spacing m.units * den) :
    roundUnits num den = m.units := by
  have hpos := Nat.mul_pos (spacing_pos m.units) hden
  have hquotient : m.units ≤ num / den := (Nat.le_div_iff_mul_le hden).mpr hle
  have hnext : num / den < m.units + spacing m.units := by
    rw [Nat.div_lt_iff_lt_mul hden, Nat.add_mul]
    omega
  exact roundUnits_eq_of_spacing (spacing_eq_of_le hquotient hnext) (by omega) habove

/-- So is what is less than half a spacing below it, if the spacing stays the same there. -/
theorem roundUnits_eq_of_lt (hden : 0 < den) (hlt : num < m.units * den)
    (hbelow : 2 * (m.units * den) < 2 * num + spacing m.units * den)
    (hpower : m.units = twoPow m.units.log2 → spacing m.units = 1) :
    roundUnits num den = m.units := by
  have hquotient : num / den < m.units := (Nat.div_lt_iff_lt_mul hden).mpr hlt
  have hprevious : m.units ≤ num / den + spacing m.units := by
    have hrest : num < (num / den + 1) * den := Nat.lt_mul_of_div_lt (Nat.lt_succ_self _) hden
    have hunits : 2 * m.units < 2 * (num / den + 1) + spacing m.units := by
      apply Nat.lt_of_mul_lt_mul_right (a := den)
      rw [Nat.add_mul, Nat.mul_assoc, Nat.mul_assoc]
      omega
    have hpos := spacing_pos m.units
    omega
  exact roundUnits_eq_of_spacing (spacing_eq_of_lt hquotient hprevious hpower) hbelow (by omega)

end

end Binary64

end Reckoner
