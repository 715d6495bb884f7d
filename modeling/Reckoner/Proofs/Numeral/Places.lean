import Reckoner.Binary64.Integral
import Reckoner.Proofs.Binary64.Order
import Reckoner.Proofs.Numeral.SeventeenDigits

/-!
# The Places of the First and the Last Digit

The shortest decimals are in the order of their magnitudes, since reading decimals keeps the order.
So the place of the first digit tells on which side of a power of ten the magnitude is, even where
this power is not a double, if only the double nearest to it has it as its shortest decimal.  The
place of the last digit tells whether the magnitude is a whole number, since the search for the
shortest decimal comes to the place of the ones before it comes to the places after the point.
-/

namespace Reckoner.Numeral

open Binary64

/-! ## The first digit -/

/-- The place of the first digit is before another place if the decimal is below the power of ten
there. -/
theorem Decimal.leadingExponent_lt_iff {d : Decimal} (h : d.digits ≠ 0) {place : Int} :
    d.leadingExponent < place ↔ d.value < (10 : ℚ) ^ place := by
  obtain ⟨hlow, hhigh⟩ := value_bounds h
  have hbase : (1 : ℚ) < 10 := by norm_num
  constructor
  · intro hplace
    have hpoint : d.pointPosition ≤ place := by
      rw [leadingExponent] at hplace
      omega
    exact hhigh.trans_le (zpow_le_zpow_right₀ hbase.le hpoint)
  · intro hvalue
    exact (zpow_lt_zpow_iff_right₀ hbase).mp (hlow.trans_lt hvalue)

variable {m m' : Magnitude}

theorem units_le_of_shortest_value_le (h : (shortest m).value ≤ (shortest m').value) :
    m.units ≤ m'.units :=
  units_le_of_decimalValue_le (shortest_toBinary64 m) (shortest_toBinary64 m') h

/-- The shortest decimals are in the order of the magnitudes. -/
theorem shortest_value_lt_iff : (shortest m).value < (shortest m').value ↔ m.units < m'.units := by
  constructor
  · intro h
    apply (units_le_of_shortest_value_le h.le).lt_of_ne
    intro hunits
    rw [Magnitude.ext hunits] at h
    exact lt_irrefl _ h
  · intro h
    apply lt_of_not_ge
    intro hle
    exact Nat.not_lt.mpr (units_le_of_shortest_value_le hle) h

/-- The first digit stands before a place exactly if the magnitude is below the double of the power
of ten there. -/
theorem shortest_leadingExponent_lt_iff (hne : m.units ≠ 0) {power : Magnitude} {place : Int}
    (hpower : shortest power = ⟨1, place⟩) :
    (shortest m).leadingExponent < place ↔ m.units < power.units := by
  have hvalue : (shortest power).value = (10 : ℚ) ^ place := by
    rw [hpower, Decimal.value, decimalValue, Nat.cast_one, one_mul]
  rw [Decimal.leadingExponent_lt_iff (shortest_digits_ne_zero hne), ← hvalue, shortest_value_lt_iff]

/-! ## The last digit -/

theorem placeUnits_zero : placeUnits 0 = unitsPerOne := by
  rw [placeUnits, zpow_zero, one_mul]

/-- A magnitude that reads as a whole number is one. -/
theorem dvd_units_of_exponent_nonneg (h : 0 ≤ (shortest m).exponent) : unitsPerOne ∣ m.units := by
  have hread : ofDecimal false (shortest m).digits (shortest m).exponent = .finite false m :=
    shortest_toBinary64 m
  have hvalue := decimalValue_of_nonneg h (shortest m).digits
  generalize (shortest m).digits * tenPow (shortest m).exponent.toNat = n at hvalue
  have hquotient : ((n * unitsPerOne : Nat) : ℚ) / (1 : Nat) =
      decimalValue (shortest m).digits (shortest m).exponent * unitsPerOne := by
    rw [hvalue, Nat.cast_one, div_one, Nat.cast_mul]
  rw [ofDecimal_eq_ofQuotient false Nat.one_pos hquotient] at hread
  rw [← roundUnits_of_ofQuotient hread]
  exact unitsPerOne_dvd_roundUnits n

/-- A whole number is its own neighbour among the whole numbers. -/
theorem exists_neighbour_of_dvd (h : unitsPerOne ∣ m.units) : ∃ d, neighbour? m 0 = some d := by
  obtain ⟨n, hn⟩ := h
  have hlow : lowDigits m 0 = n := by
    have hone : tenPow 0 = 1 := rfl
    rw [lowDigits, inPlaces, if_pos (Int.le_refl 0), Int.toNat_zero, hone, Nat.mul_one]
    dsimp only
    rw [hn, Nat.mul_div_cancel_left n unitsPerOne_pos]
  apply exists_neighbour
  left
  rw [readsBack_iff, hlow]
  apply ofDecimal_eq_finite
  rw [decimalValue_units, placeUnits_zero, hn, Nat.mul_comm, Nat.cast_mul]

/-- The last digit of the shortest decimal stands before the point exactly if the magnitude is a
whole number. -/
theorem shortest_exponent_nonneg_iff (hne : m.units ≠ 0) :
    0 ≤ (shortest m).exponent ↔ unitsPerOne ∣ m.units := by
  refine ⟨dvd_units_of_exponent_nonneg, fun hwhole ↦ ?_⟩
  obtain ⟨n, -, d, hd, heq, hfirst⟩ := exists_shortest_eq_trimZeros hne
  have hexponent : d.exponent = decimalSize m - (n + 1) := by
    rcases (neighbour?_eq_some hd).2 with rfl | rfl <;> rfl
  have htrim := d.exponent_le_trimZeros
  have hsize : 0 < decimalSize m := by
    have hone : placeUnits 0 ≤ m.units := by
      rw [placeUnits_zero]
      exact_mod_cast Nat.le_of_dvd (Nat.pos_of_ne_zero hne) hwhole
    exact placeUnits_lt_iff.mp (hone.trans_lt (decimalSize_bounds hne).2)
  rw [heq]
  by_contra hneg
  obtain ⟨whole, hones⟩ := exists_neighbour_of_dvd hwhole
  have hnone := hfirst (decimalSize m - 1).toNat (by omega)
  have hplace : decimalSize m - ((decimalSize m - 1).toNat + 1) = 0 := by omega
  rw [hplace, hones] at hnone
  cases hnone

end Reckoner.Numeral
