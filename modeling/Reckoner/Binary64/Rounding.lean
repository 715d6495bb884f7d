import Reckoner.Binary64.Basic

/-!
# Rounding to the Nearest Double

Every inexact operation is one exact quotient followed by one rounding.  `roundUnits` takes a
quotient of two naturals, counted in units, to the nearest multiple of the spacing that belongs to
its size, a tie going to the even multiple.  The result has at most 53 significant bits, so it is a
magnitude unless it reaches 2^1024, where `ofQuotient` gives an infinity.
-/

namespace Reckoner.Binary64

/-- The whole number nearest to `num / den`; a tie goes to the even one. -/
def divNearest (num den : Nat) : Nat :=
  let quotient := num / den
  let rest := num % den
  if 2 * rest < den ∨ (2 * rest = den ∧ quotient % 2 = 0) then quotient else quotient + 1

/-- `num / den` units, rounded to the nearest multiple of the spacing at that size. -/
def roundUnits (num den : Nat) : Nat :=
  let step := spacing (num / den)
  divNearest num (den * step) * step

theorem divNearest_le (num den : Nat) : divNearest num den ≤ num / den + 1 := by
  simp only [divNearest]
  split <;> omega

/-- A multiple of a power of two with a factor of at most 53 bits is aligned. -/
theorem aligned_of_le {k s : Nat} (hk : k ≤ twoPow 53) :
    spacing (k * twoPow s) ∣ k * twoPow s := by
  unfold spacing
  rcases Nat.eq_zero_or_pos k with rfl | hpos
  · simp
  rcases Nat.lt_or_eq_of_le hk with hlt | rfl
  · have hlog : (k * twoPow s).log2 < 53 + s := by
      have hne : k * twoPow s ≠ 0 := Nat.ne_of_gt (Nat.mul_pos hpos (twoPow_pos s))
      rw [log2_lt_iff hne, twoPow_add]
      exact Nat.mul_lt_mul_of_pos_right hlt (twoPow_pos s)
    exact Nat.dvd_trans (twoPow_dvd (by omega)) (Nat.dvd_mul_left _ _)
  · rw [← twoPow_add, log2_twoPow]
    exact twoPow_dvd (by omega)

/-- The quotient by the spacing has at most 53 bits. -/
theorem div_spacing_lt (num den : Nat) : num / (den * spacing (num / den)) < twoPow 53 := by
  rw [← Nat.div_div_eq_div_mul]
  generalize num / den = q
  unfold spacing
  rw [Nat.div_lt_iff_lt_mul (twoPow_pos _), ← twoPow_add]
  exact Nat.lt_of_lt_of_le (lt_twoPow_log2 q) (twoPow_le (by omega))

/-- A rounded quotient has at most 53 significant bits. -/
theorem roundUnits_aligned (num den : Nat) :
    spacing (roundUnits num den) ∣ roundUnits num den := by
  have hk : divNearest num (den * spacing (num / den)) ≤ twoPow 53 :=
    Nat.le_trans (divNearest_le _ _) (div_spacing_lt num den)
  exact aligned_of_le hk

/-- The double nearest to `num / den` units, with the given sign. -/
def ofQuotient (negative : Bool) (num den : Nat) : Binary64 :=
  if h : roundUnits num den < overflow then
    .finite negative ⟨roundUnits num den, h, roundUnits_aligned num den⟩
  else
    .infinite negative

def ofNat (n : Nat) : Binary64 := ofQuotient false (n * unitsPerOne) 1

def one : Binary64 := ofNat 1

end Reckoner.Binary64
