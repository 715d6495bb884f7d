import Mathlib.Data.Nat.Dist
import Reckoner.Proofs.Binary64.Order

/-!
# Rounding Goes to the Nearest Double

No finite double is nearer to a quotient than the one that it is rounded to, and where another one
is equally near, the last of its 53 bits is zero.  On the grid that belongs to the size of the
quotient this is so because nearest whole numbers are taken.  A double off this grid is below the
power of two that begins it, which is on the grid and nearer.
-/

namespace Reckoner

namespace Binary64

variable {num den : Nat}

/-! ## Nearest whole numbers -/

/-- A multiple is one of the two around a number, or a step or more beyond them. -/
theorem mul_beside (k quotient den : Nat) :
    k * den + den ≤ quotient * den ∨ k = quotient ∨ k = quotient + 1 ∨
      quotient * den + den + den ≤ k * den := by
  rcases Nat.lt_or_ge k quotient with hlt | hle
  · left
    rw [← Nat.succ_mul]
    exact Nat.mul_le_mul_right den hlt
  · rcases Nat.lt_or_ge (quotient + 1) k with hgt | hle'
    · right; right; right
      rw [← Nat.succ_mul, ← Nat.succ_mul]
      exact Nat.mul_le_mul_right den hgt
    · omega

/-- No multiple is nearer than the rounded one. -/
theorem divNearest_nearest (hden : 0 < den) (num k : Nat) :
    Nat.dist (divNearest num den * den) num ≤ Nat.dist (k * den) num := by
  have hsplit := Nat.div_add_mod' num den
  have hrest := Nat.mod_lt num hden
  have hnext : (num / den + 1) * den = num / den * den + den := Nat.succ_mul _ _
  simp only [divNearest, Nat.dist]
  split <;> rcases mul_beside k (num / den) den with hbelow | rfl | rfl | habove <;> omega

/-- If another multiple is equally near, the rounded one is even. -/
theorem divNearest_even (hden : 0 < den) {k : Nat} (hne : k ≠ divNearest num den)
    (h : Nat.dist (divNearest num den * den) num = Nat.dist (k * den) num) :
    divNearest num den % 2 = 0 := by
  have hsplit := Nat.div_add_mod' num den
  have hrest := Nat.mod_lt num hden
  have hnext : (num / den + 1) * den = num / den * den + den := Nat.succ_mul _ _
  simp only [divNearest, Nat.dist] at hne h ⊢
  split at h
  case isTrue hlow =>
    rw [if_pos hlow] at hne ⊢
    rcases mul_beside k (num / den) den with hbelow | rfl | rfl | habove <;> omega
  case isFalse hhigh =>
    rw [if_neg hhigh] at hne ⊢
    rcases mul_beside k (num / den) den with hbelow | rfl | rfl | habove <;> omega

/-! ## Nearest magnitudes -/

/-- What is aligned is on the grid that belongs to the size of `n`, or below the power of two that
begins it. -/
theorem spacing_dvd_or_lt {n units : Nat} (haligned : spacing units ∣ units) :
    spacing n ∣ units ∨ n ≠ 0 ∧ units < twoPow n.log2 := by
  by_cases hlog : n.log2 ≤ units.log2
  · exact .inl (Nat.dvd_trans (twoPow_dvd (Nat.sub_le_sub_right hlog 52)) haligned)
  · by_cases hzero : units = 0
    · exact .inl (hzero ▸ Nat.dvd_zero _)
    · refine .inr ⟨?_, (log2_lt_iff hzero).mp (Nat.lt_of_not_le hlog)⟩
      rintro rfl
      exact hlog (Nat.zero_le _)

/-- A rounded quotient is a rounded number of steps. -/
theorem roundUnits_mul (num den : Nat) : roundUnits num den * den =
    divNearest num (den * spacing (num / den)) * (den * spacing (num / den)) := by
  rw [roundUnits, Nat.mul_assoc, Nat.mul_comm (spacing _) den]

theorem twoPow_log2_mul_le (hden : 0 < den) (hne : num / den ≠ 0) :
    twoPow (num / den).log2 * den ≤ num :=
  (Nat.le_div_iff_mul_le hden).mp (twoPow_log2_le hne)

/-- What is on the grid is a number of steps. -/
theorem exists_steps {units : Nat} (h : spacing (num / den) ∣ units) :
    ∃ k, units = k * spacing (num / den) ∧ units * den = k * (den * spacing (num / den)) := by
  obtain ⟨k, rfl⟩ := h
  exact ⟨k, Nat.mul_comm _ _, by rw [Nat.mul_comm _ k, Nat.mul_assoc, Nat.mul_comm den]⟩

section

variable (hden : 0 < den)

include hden

theorem steps_pos : 0 < den * spacing (num / den) := Nat.mul_pos hden (spacing_pos _)

/-- What is below the grid is farther away than the power of two that begins it. -/
theorem dist_lt_of_lt {units : Nat} (hne : num / den ≠ 0)
    (hlt : units < twoPow (num / den).log2) :
    Nat.dist (roundUnits num den * den) num < Nat.dist (units * den) num := by
  obtain ⟨k, -, hk⟩ := exists_steps (spacing_dvd_twoPow (Nat.le_refl (num / den).log2))
  have hpower := twoPow_log2_mul_le hden hne
  calc Nat.dist (roundUnits num den * den) num
      ≤ Nat.dist (twoPow (num / den).log2 * den) num := by
        rw [roundUnits_mul, hk]
        exact divNearest_nearest (steps_pos hden) num k
    _ < Nat.dist (units * den) num := by
        have hbelow := Nat.mul_lt_mul_of_pos_right hlt hden
        simp only [Nat.dist]
        omega

/-- No magnitude is nearer than the rounded one. -/
theorem roundUnits_nearest (num : Nat) (m : Magnitude) :
    Nat.dist (roundUnits num den * den) num ≤ Nat.dist (m.units * den) num := by
  rcases spacing_dvd_or_lt (n := num / den) m.aligned with hgrid | ⟨hne, hlt⟩
  · obtain ⟨k, -, hk⟩ := exists_steps hgrid
    rw [roundUnits_mul, hk]
    exact divNearest_nearest (steps_pos hden) num k
  · exact Nat.le_of_lt (dist_lt_of_lt hden hne hlt)

/-- An even number of steps ends in a zero as a magnitude, too. -/
theorem two_mul_spacing_dvd (heven : divNearest num (den * spacing (num / den)) % 2 = 0) :
    2 * spacing (roundUnits num den) ∣ roundUnits num den := by
  by_cases hzero : num / den = 0
  · have hquotient : num / (den * spacing (num / den)) = 0 := by
      rw [← Nat.div_div_eq_div_mul, hzero, Nat.zero_div]
    have hle := divNearest_le num (den * spacing (num / den))
    have hnone : divNearest num (den * spacing (num / den)) = 0 := by omega
    have hvanishes : roundUnits num den = 0 := by rw [roundUnits, hnone, Nat.zero_mul]
    rw [hvanishes]
    exact Nat.dvd_zero _
  · have hlow := twoPow_log2_le_roundUnits hzero
    have hhigh : roundUnits num den ≤ twoPow ((num / den).log2 + 1) :=
      roundUnits_le_of_aligned (twoPow_aligned _)
        (Nat.le_of_lt ((Nat.div_lt_iff_lt_mul hden).mp (lt_twoPow_log2 _)))
    rcases Nat.lt_or_eq_of_le hhigh with hlt | heq
    · have hne : roundUnits num den ≠ 0 :=
        Nat.ne_of_gt (Nat.lt_of_lt_of_le (twoPow_pos _) hlow)
      have hspacing : spacing (roundUnits num den) = spacing (num / den) := by
        rw [spacing, spacing, (log2_eq_iff hne).mpr ⟨hlow, hlt⟩]
      rw [hspacing, roundUnits]
      exact Nat.mul_dvd_mul_right (Nat.dvd_of_mod_eq_zero heven) _
    · rw [heq, spacing, log2_twoPow, Nat.mul_comm]
      change twoPow (_ + 1) ∣ _
      exact twoPow_dvd (by omega)

/-- If another magnitude is equally near, the rounded one ends in a zero. -/
theorem roundUnits_even {m : Magnitude} (hne : m.units ≠ roundUnits num den)
    (h : Nat.dist (roundUnits num den * den) num = Nat.dist (m.units * den) num) :
    2 * spacing (roundUnits num den) ∣ roundUnits num den := by
  rcases spacing_dvd_or_lt (n := num / den) m.aligned with hgrid | ⟨hquotient, hlt⟩
  · obtain ⟨k, hunits, hk⟩ := exists_steps hgrid
    apply two_mul_spacing_dvd hden
    apply divNearest_even (steps_pos hden) (k := k)
    · rintro rfl
      exact hne hunits
    · rw [← roundUnits_mul, ← hk, h]
  · exact absurd h (Nat.ne_of_lt (dist_lt_of_lt hden hquotient hlt))

end

/-! ## Nearest doubles -/

/-- The double with this sign and magnitude is the nearest one to so many units: no finite double is
nearer, and where one is equally near, the last of the 53 bits of this one is zero. -/
structure IsNearest (negative : Bool) (m : Magnitude) (units : Int) : Prop where
  nearest (negative' : Bool) (m' : Magnitude) :
    (signedUnits negative m - units).natAbs ≤ (signedUnits negative' m' - units).natAbs
  even (negative' : Bool) (m' : Magnitude)
    (h : (signedUnits negative m - units).natAbs = (signedUnits negative' m' - units).natAbs) :
    signedUnits negative' m' = signedUnits negative m ∨ 2 * spacing m.units ∣ m.units

variable {negative : Bool} {m : Magnitude} {units : Int}

/-- A finite double is nearest to itself. -/
theorem isNearest_self (negative : Bool) (m : Magnitude) :
    IsNearest negative m (signedUnits negative m) where
  nearest negative' m' := by omega
  even negative' m' h := by omega

theorem signedUnits_eq_or_neg (negative negative' : Bool) (m : Magnitude) :
    signedUnits negative' m = signedUnits negative m ∨
      signedUnits negative' m = -signedUnits negative m := by
  cases negative <;> cases negative' <;> simp [signedUnits]

/-- The other sign is not nearer. -/
theorem dist_le_natAbs_signedUnits_sub (negative : Bool) (m : Magnitude) (units : Int) :
    Nat.dist m.units units.natAbs ≤ (signedUnits negative m - units).natAbs := by
  simp only [signedUnits, Nat.dist]
  split <;> omega

theorem natAbs_signedUnits_sub_eq (m : Magnitude) (units : Int) :
    (signedUnits (decide (units < 0)) m - units).natAbs = Nat.dist m.units units.natAbs := by
  simp only [signedUnits, Nat.dist, decide_eq_true_eq]
  split <;> omega

/-- Units are rounded to the nearest double. -/
theorem isNearest_of_roundUnits (h : roundUnits units.natAbs 1 = m.units) :
    IsNearest (decide (units < 0)) m units := by
  have hdist (m' : Magnitude) : Nat.dist m.units units.natAbs ≤ Nat.dist m'.units units.natAbs := by
    have hnearest := roundUnits_nearest Nat.one_pos units.natAbs m'
    rwa [Nat.mul_one, Nat.mul_one, h] at hnearest
  have hnearest (negative' : Bool) (m' : Magnitude) :
      (signedUnits (decide (units < 0)) m - units).natAbs ≤
        (signedUnits negative' m' - units).natAbs := by
    rw [natAbs_signedUnits_sub_eq]
    exact (hdist m').trans (dist_le_natAbs_signedUnits_sub negative' m' units)
  refine ⟨hnearest, fun negative' m' heq ↦ ?_⟩
  by_cases hunits : m'.units = m.units
  · left
    obtain rfl : m' = m := Magnitude.ext hunits
    have hzero := hnearest false .zero
    have hnone : signedUnits false .zero = 0 := rfl
    rcases signedUnits_eq_or_neg (decide (units < 0)) negative' m' with hsame | hother <;> omega
  · right
    have hle := dist_le_natAbs_signedUnits_sub negative' m' units
    rw [← heq, natAbs_signedUnits_sub_eq] at hle
    rw [← h] at hunits ⊢
    apply roundUnits_even Nat.one_pos hunits
    rw [Nat.mul_one, Nat.mul_one, h]
    exact Nat.le_antisymm (hdist m') hle

end Binary64

end Reckoner
