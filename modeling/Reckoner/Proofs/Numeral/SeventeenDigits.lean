import Mathlib.Algebra.Order.Floor.Semifield
import Mathlib.Data.Rat.Floor
import Reckoner.Proofs.Numeral.Shortest

/-!
# Seventeen Digits Suffice

The seventeenth digit of a positive magnitude stands at a place that is worth less than the spacing
of the doubles there.  So one of the two multiples of this place around the magnitude reads back as
it, the search for the shortest decimal ends at seventeen digits or before, and the exact decimal
never has to stand in.  The first digit stands at the place of the first digit of the magnitude, or
one before it if the digits are rounded up to a power of ten.
-/

namespace Reckoner.Numeral

open Binary64

/-! ## Counted digits -/

theorem length_digitsOf_pos (n : Nat) : 0 < (digitsOf n).length := Nat.length_toDigits_pos

theorem length_digitsOf_le_iff {n k : Nat} (hk : 0 < k) :
    (digitsOf n).length ≤ k ↔ n < tenPow k := Nat.length_toDigits_le_iff (by decide) hk

theorem lt_tenPow_length (n : Nat) : n < tenPow (digitsOf n).length :=
  (length_digitsOf_le_iff (length_digitsOf_pos n)).mp (Nat.le_refl _)

theorem tenPow_length_le {n : Nat} (h : n ≠ 0) : tenPow ((digitsOf n).length - 1) ≤ n := by
  by_cases hone : (digitsOf n).length = 1
  · rw [hone]
    exact Nat.one_le_iff_ne_zero.mpr h
  · have hpos := length_digitsOf_pos n
    apply Nat.le_of_not_lt
    rw [← length_digitsOf_le_iff (by omega)]
    omega

namespace Decimal

/-- A decimal that is not zero is below the power of ten of its point, and reaches the one
before. -/
theorem value_bounds {d : Decimal} (h : d.digits ≠ 0) :
    (10 : ℚ) ^ (d.pointPosition - 1) ≤ d.value ∧ d.value < (10 : ℚ) ^ d.pointPosition := by
  have hlow : ((tenPow ((digitsOf d.digits).length - 1) : Nat) : ℚ) ≤ d.digits := by
    exact_mod_cast tenPow_length_le h
  have hhigh : (d.digits : ℚ) < (tenPow (digitsOf d.digits).length : Nat) := by
    exact_mod_cast lt_tenPow_length d.digits
  have hpos := length_digitsOf_pos d.digits
  rw [cast_tenPow, ← zpow_natCast] at hlow hhigh
  rw [Nat.cast_sub (by omega : 1 ≤ (digitsOf d.digits).length), Nat.cast_one] at hlow
  have hplace : (0 : ℚ) < (10 : ℚ) ^ d.exponent := by positivity
  constructor
  · calc (10 : ℚ) ^ (d.pointPosition - 1) =
          (10 : ℚ) ^ (((digitsOf d.digits).length : Int) - 1) * (10 : ℚ) ^ d.exponent := by
            rw [← zpow_add₀ (by norm_num), pointPosition]
            congr 1
            ring
      _ ≤ d.value := by
        rw [value, decimalValue]
        gcongr
  · calc d.value < (10 : ℚ) ^ ((digitsOf d.digits).length : Int) * (10 : ℚ) ^ d.exponent := by
          rw [value, decimalValue]
          gcongr
      _ = (10 : ℚ) ^ d.pointPosition := by
        rw [← zpow_add₀ (by norm_num), pointPosition]

/-! ## Zeros at the end -/

theorem trimZeros_digits_le (d : Decimal) : d.trimZeros.digits ≤ d.digits := by
  induction d using trimZeros.induct with
  | case1 d h ih =>
    rw [trimZeros, if_pos h]
    exact ih.trans (Nat.div_le_self _ _)
  | case2 d h => rw [trimZeros, if_neg h]

theorem exponent_le_trimZeros (d : Decimal) : d.exponent ≤ d.trimZeros.exponent := by
  induction d using trimZeros.induct with
  | case1 d h ih =>
    rw [trimZeros, if_pos h]
    exact (Int.le_add_one (Int.le_refl _)).trans ih
  | case2 d h => rw [trimZeros, if_neg h]

/-- No zero is left at the end of digits that are not zero. -/
theorem trimZeros_digits_mod (d : Decimal) (h : d.digits ≠ 0) : d.trimZeros.digits % 10 ≠ 0 := by
  induction d using trimZeros.induct with
  | case1 d hzero ih =>
    rw [trimZeros, if_pos hzero]
    apply ih
    change d.digits / 10 ≠ 0
    omega
  | case2 d hzero =>
    rw [trimZeros, if_neg hzero]
    intro hmod
    exact hzero ⟨h, hmod⟩

end Decimal

/-! ## Places in units -/

/-- What `10^place` is worth in units. -/
def placeUnits (place : Int) : ℚ := (10 : ℚ) ^ place * unitsPerOne

theorem unitsPerOne_cast_pos : (0 : ℚ) < unitsPerOne := Nat.cast_pos.mpr unitsPerOne_pos

theorem placeUnits_pos (place : Int) : 0 < placeUnits place :=
  mul_pos (by positivity) unitsPerOne_cast_pos

theorem placeUnits_natCast (n : Nat) : placeUnits n = (tenPow n * unitsPerOne : Nat) := by
  rw [placeUnits, zpow_natCast, Nat.cast_mul, cast_tenPow]

theorem placeUnits_add_nat (place : Int) (n : Nat) :
    placeUnits (place + n) = tenPow n * placeUnits place := by
  rw [placeUnits, placeUnits, zpow_add₀ (by norm_num), zpow_natCast, cast_tenPow]
  ring

theorem placeUnits_le_iff {place place' : Int} :
    placeUnits place ≤ placeUnits place' ↔ place ≤ place' := by
  rw [placeUnits, placeUnits, mul_le_mul_iff_left₀ unitsPerOne_cast_pos,
    zpow_le_zpow_iff_right₀ (by norm_num)]

theorem placeUnits_lt_iff {place place' : Int} :
    placeUnits place < placeUnits place' ↔ place < place' :=
  lt_iff_lt_of_le_iff_le placeUnits_le_iff

theorem decimalValue_units (digits : Nat) (place : Int) :
    decimalValue digits place * unitsPerOne = digits * placeUnits place := by
  rw [decimalValue, placeUnits, mul_assoc]

theorem inPlaces_spec (m : Magnitude) (place : Int) : 0 < (inPlaces m place).2 ∧
    ((inPlaces m place).1 : ℚ) / (inPlaces m place).2 = m.units / placeUnits place := by
  unfold inPlaces placeUnits
  have hunits := unitsPerOne_pos
  generalize unitsPerOne = one at hunits
  split
  case isTrue hnonneg =>
    obtain ⟨n, rfl⟩ := Int.eq_ofNat_of_zero_le hnonneg
    refine ⟨Nat.mul_pos hunits (tenPow_pos _), ?_⟩
    rw [Int.toNat_natCast, Nat.cast_mul, cast_tenPow, zpow_natCast, mul_comm (one : ℚ)]
  case isFalse hneg =>
    obtain ⟨n, rfl⟩ : ∃ n : Nat, place = -(n : Int) := ⟨(-place).toNat, by omega⟩
    refine ⟨hunits, ?_⟩
    rw [neg_neg, Int.toNat_natCast, Nat.cast_mul, cast_tenPow, zpow_neg, zpow_natCast]
    field_simp

/-- The magnitude is between the two multiples. -/
theorem lowDigits_bounds (m : Magnitude) (place : Int) :
    lowDigits m place * placeUnits place ≤ m.units ∧
      (m.units : ℚ) < (lowDigits m place + 1) * placeUnits place := by
  obtain ⟨-, hquotient⟩ := inPlaces_spec m place
  have hplace := placeUnits_pos place
  have hfloor : lowDigits m place = ⌊(m.units : ℚ) / placeUnits place⌋₊ := by
    rw [← hquotient, Nat.floor_div_eq_div, lowDigits]
  have hnonneg : 0 ≤ (m.units : ℚ) / placeUnits place := div_nonneg (Nat.cast_nonneg _) hplace.le
  rw [hfloor]
  exact ⟨(le_div_iff₀ hplace).mp (Nat.floor_le hnonneg),
    (div_lt_iff₀ hplace).mp (Nat.lt_floor_add_one _)⟩

/-- What a search through the first numbers finds is found at the first number that has it. -/
theorem exists_first_of_findSome? {α : Type} {f : Nat → Option α} {n : Nat} {a : α}
    (h : (List.range n).findSome? f = some a) :
    ∃ k, k < n ∧ f k = some a ∧ ∀ j < k, f j = none := by
  obtain ⟨before, k, after, hrange, hk, hbefore⟩ := List.findSome?_eq_some_iff.mp h
  have hmem : ∀ j, j ∈ before ++ k :: after ↔ j < n := fun j ↦ by rw [← hrange, List.mem_range]
  have hkn : k < n := (hmem k).mp (List.mem_append_right _ List.mem_cons_self)
  have hsorted : (before ++ k :: after).Pairwise (· < ·) := hrange ▸ List.pairwise_lt_range
  refine ⟨k, hkn, hk, fun j hj ↦ hbefore j ?_⟩
  rcases List.mem_append.mp ((hmem j).mpr (hj.trans hkn)) with hbefore | hafter
  · exact hbefore
  · obtain ⟨-, hcons, -⟩ := List.pairwise_append.mp hsorted
    rcases List.mem_cons.mp hafter with rfl | hafter
    · exact absurd hj (Nat.lt_irrefl j)
    · have hlater := (List.pairwise_cons.mp hcons).1 j hafter
      exact absurd (hj.trans hlater) (Nat.lt_irrefl j)

/-! ## The size of a magnitude -/

theorem unitsPerOne_le_tenPow : unitsPerOne ≤ tenPow deepestPlace := by decide +kernel

theorem placeUnits_sub_deepestPlace (n : Nat) :
    placeUnits (n - deepestPlace) * tenPow deepestPlace = tenPow n * unitsPerOne := by
  rw [placeUnits, zpow_sub₀ (by norm_num), zpow_natCast, zpow_natCast, cast_tenPow, cast_tenPow]
  generalize (unitsPerOne : ℚ) = one
  field_simp

section

variable {m : Magnitude} (hne : m.units ≠ 0)

include hne

/-- The first digit of the magnitude stands at the place before its size. -/
theorem decimalSize_bounds :
    placeUnits (decimalSize m - 1) ≤ m.units ∧ (m.units : ℚ) < placeUnits (decimalSize m) := by
  have hdeepest : (0 : ℚ) < tenPow deepestPlace := Nat.cast_pos.mpr (tenPow_pos _)
  rw [← mul_le_mul_iff_left₀ hdeepest, ← mul_lt_mul_iff_left₀ hdeepest, decimalSize]
  generalize hq : m.units * tenPow deepestPlace / unitsPerOne = q
  have hqpos : q ≠ 0 := by
    apply Nat.ne_of_gt
    rw [← hq, Nat.div_pos_iff]
    refine ⟨unitsPerOne_pos, unitsPerOne_le_tenPow.trans ?_⟩
    exact Nat.le_mul_of_pos_left _ (Nat.pos_of_ne_zero hne)
  have hlow := tenPow_length_le hqpos
  have hhigh := lt_tenPow_length q
  have hpos := length_digitsOf_pos q
  generalize (digitsOf q).length = length at hlow hhigh hpos
  rw [← hq, Nat.le_div_iff_mul_le unitsPerOne_pos] at hlow
  rw [← hq, Nat.div_lt_iff_lt_mul unitsPerOne_pos] at hhigh
  have hbefore : (length : Int) - deepestPlace - 1 = ((length - 1 : Nat) : Int) - deepestPlace := by
    omega
  rw [hbefore, placeUnits_sub_deepestPlace, placeUnits_sub_deepestPlace]
  exact ⟨by exact_mod_cast hlow, by exact_mod_cast hhigh⟩

/-- The digit after the first `n` stands at a place that fits in the magnitude `10^n` times, but not
`10^(n+1)` times. -/
theorem placeUnits_bounds (n : Nat) :
    tenPow n * placeUnits (decimalSize m - (n + 1)) ≤ m.units ∧
      (m.units : ℚ) < tenPow (n + 1) * placeUnits (decimalSize m - (n + 1)) := by
  have hfirst : decimalSize m - (n + 1) + n = decimalSize m - 1 := by ring
  have hsize : decimalSize m - (n + 1) + (n + 1 : Nat) = decimalSize m := by
    push_cast
    ring
  rw [← placeUnits_add_nat, ← placeUnits_add_nat, hfirst, hsize]
  exact decimalSize_bounds hne

/-- The sizes of the doubles. -/
theorem decimalSize_range : -323 ≤ decimalSize m ∧ decimalSize m ≤ 309 := by
  have hpos := length_digitsOf_pos (m.units * tenPow deepestPlace / unitsPerOne)
  have hlarge : (overflow : ℚ) ≤ placeUnits (309 : Nat) := by
    rw [placeUnits_natCast, Nat.cast_le, overflow, twoPow_add, ← unitsPerOne]
    exact Nat.mul_le_mul_right _ twoPow_le_tenPow
  have hbelow : (m.units : ℚ) < overflow := Nat.cast_lt.mpr m.below
  have hplace := ((decimalSize_bounds hne).1.trans_lt hbelow).trans_le hlarge
  rw [placeUnits_lt_iff] at hplace
  have hdeepest : deepestPlace = 324 := rfl
  constructor
  · rw [decimalSize]
    omega
  · omega

/-! ## The seventeenth digit -/

/-- The seventeenth digit is worth less than any gap that fits in the magnitude 2^53 times or less
often. -/
theorem placeUnits_lt_of_units_le {gap : ℚ} (hgap : 0 < gap) (h : m.units ≤ twoPow 53 * gap) :
    placeUnits (decimalSize m - enoughDigits) < gap := by
  have hplace : (tenPow 16 : ℚ) * placeUnits (decimalSize m - enoughDigits) ≤ m.units :=
    (placeUnits_bounds hne 16).1
  have htwo : (twoPow 53 : ℚ) < tenPow 16 := by exact_mod_cast (by decide : twoPow 53 < tenPow 16)
  have hten : (0 : ℚ) < tenPow 16 := Nat.cast_pos.mpr (tenPow_pos _)
  apply lt_of_mul_lt_mul_left _ hten.le
  calc (tenPow 16 : ℚ) * placeUnits (decimalSize m - enoughDigits) ≤ m.units := hplace
    _ ≤ twoPow 53 * gap := h
    _ < tenPow 16 * gap := mul_lt_mul_of_pos_right htwo hgap

/-- The seventeenth digit is worth less than the spacing. -/
theorem placeUnits_lt_spacing : placeUnits (decimalSize m - enoughDigits) < spacing m.units := by
  have hbits : m.units < twoPow 53 * spacing m.units := by
    rw [spacing, ← twoPow_add]
    exact (lt_twoPow_log2 _).trans_le (twoPow_le (by omega))
  exact placeUnits_lt_of_units_le hne (Nat.cast_pos.mpr (spacing_pos _))
    (by exact_mod_cast hbits.le)

/-- At a power of two, where the doubles below are closer, it is worth less than half of it. -/
theorem placeUnits_lt_half_spacing (hpower : m.units = twoPow m.units.log2)
    (hspacing : spacing m.units ≠ 1) :
    placeUnits (decimalSize m - enoughDigits) < (spacing m.units : ℚ) / 2 := by
  have hlog : 52 < m.units.log2 := by
    apply Nat.lt_of_not_le
    intro hle
    rw [spacing, Nat.sub_eq_zero_of_le hle] at hspacing
    exact hspacing rfl
  have hbits : 2 * m.units = twoPow 53 * spacing m.units := by
    rw [hpower, spacing, log2_twoPow, ← twoPow_add]
    have hsum : 53 + (m.units.log2 - 52) = m.units.log2 + 1 := by omega
    rw [hsum, twoPow_add, Nat.mul_comm]
    rfl
  have hcast : (2 : ℚ) * m.units = twoPow 53 * spacing m.units := by exact_mod_cast hbits
  apply placeUnits_lt_of_units_le hne (half_pos (Nat.cast_pos.mpr (spacing_pos _)))
  linarith

/-- One of the two multiples of the seventeenth place reads back. -/
theorem exists_neighbour_seventeen :
    ∃ d, neighbour? m (decimalSize m - enoughDigits) = some d := by
  have hplace := placeUnits_lt_spacing hne
  have hhalf := placeUnits_lt_half_spacing hne
  generalize decimalSize m - enoughDigits = place at hplace hhalf
  obtain ⟨hlow, hhigh⟩ := lowDigits_bounds m place
  apply exists_neighbour
  simp only [readsBack_iff, Decimal.toBinary64]
  by_cases hnear : (lowDigits m place + 1) * placeUnits place < m.units + (spacing m.units : ℚ) / 2
  · right
    apply ofDecimal_eq_finite_of_le
    · rw [decimalValue_units, Nat.cast_add_one]
      exact hhigh.le
    · rw [decimalValue_units, Nat.cast_add_one]
      exact hnear
  · left
    have hpower : m.units = twoPow m.units.log2 → spacing m.units = 1 := by
      intro hpower
      by_contra hspacing
      have hclose := hhalf hpower hspacing
      linarith
    rcases hlow.lt_or_eq with hlt | heq
    · apply ofDecimal_eq_finite_of_lt _ _ _ hpower
      · rwa [decimalValue_units]
      · rw [decimalValue_units]
        linarith
    · apply ofDecimal_eq_finite
      rw [decimalValue_units, heq]

/-- The shortest decimal is the first neighbour found, of at most seventeen digits, without zeros at
its end. -/
theorem exists_shortest_eq_trimZeros : ∃ n, n < enoughDigits ∧
    ∃ d, neighbour? m (decimalSize m - (n + 1)) = some d ∧ shortest m = d.trimZeros ∧
      ∀ k : Nat, k < n → neighbour? m (decimalSize m - (k + 1)) = none := by
  rw [shortest]
  cases hfound : (List.range enoughDigits).findSome? fun n : Nat ↦
      neighbour? m (decimalSize m - (n + 1)) with
  | none =>
    rw [List.findSome?_eq_none_iff] at hfound
    obtain ⟨d, hd⟩ := exists_neighbour_seventeen hne
    have hnone := hfound 16 (by decide)
    cases hnone.symm.trans hd
  | some d =>
    obtain ⟨n, hn, hneighbour, hfirst⟩ := exists_first_of_findSome? hfound
    exact ⟨n, hn, d, hneighbour, rfl, hfirst⟩

/-! ## The digits and the point of the shortest decimal -/

/-- A neighbour at the place of the digit after the first `n` has `n + 1` digits, or is the power of
ten that follows these. -/
theorem tenPow_le_neighbour {n : Nat} {d : Decimal}
    (h : neighbour? m (decimalSize m - (n + 1)) = some d) :
    tenPow n ≤ d.digits ∧ d.digits ≤ tenPow (n + 1) := by
  obtain ⟨-, hd⟩ := neighbour?_eq_some h
  obtain ⟨hfirst, hsize⟩ := placeUnits_bounds hne n
  generalize decimalSize m - (n + 1) = place at hd hfirst hsize
  obtain ⟨hlow, hhigh⟩ := lowDigits_bounds m place
  have hpos := (placeUnits_pos place).le
  have hleast : (tenPow n : ℚ) < (lowDigits m place + 1 : Nat) := by
    push_cast
    exact lt_of_mul_lt_mul_right (hfirst.trans_lt hhigh) hpos
  have hmost : (lowDigits m place : ℚ) < tenPow (n + 1) :=
    lt_of_mul_lt_mul_right (hlow.trans_lt hsize) hpos
  rw [Nat.cast_lt] at hleast hmost
  rcases hd with rfl | rfl <;> exact ⟨by simp only; omega, by simp only; omega⟩

/-- The shortest decimal does not end in a zero. -/
theorem shortest_digits_mod : (shortest m).digits % 10 ≠ 0 := by
  obtain ⟨n, -, d, hd, heq, -⟩ := exists_shortest_eq_trimZeros hne
  have hleast := (tenPow_le_neighbour hne hd).1
  have hpos := tenPow_pos n
  rw [heq]
  exact d.trimZeros_digits_mod (by omega)

theorem shortest_digits_ne_zero : (shortest m).digits ≠ 0 := by
  intro hzero
  apply shortest_digits_mod hne
  rw [hzero]

/-- The shortest decimal has at most seventeen digits. -/
theorem length_shortest_digits_le : (digitsOf (shortest m).digits).length ≤ enoughDigits := by
  obtain ⟨n, hn, d, hd, heq, -⟩ := exists_shortest_eq_trimZeros hne
  obtain ⟨-, hmost⟩ := tenPow_le_neighbour hne hd
  have hmod := shortest_digits_mod hne
  rw [heq] at hmod
  have hle := d.trimZeros_digits_le.trans (hmost.trans (tenPow_le hn))
  rw [length_digitsOf_le_iff (by decide), heq]
  apply hle.lt_of_ne
  intro hpower
  rw [hpower] at hmod
  exact hmod (by decide)

/-- The first digit of the shortest decimal is that of the magnitude, or stands one place before. -/
theorem shortest_leadingExponent : decimalSize m - 1 ≤ (shortest m).leadingExponent ∧
    (shortest m).leadingExponent ≤ decimalSize m := by
  obtain ⟨n, -, d, hd, heq, -⟩ := exists_shortest_eq_trimZeros hne
  obtain ⟨hleast, hmost⟩ := tenPow_le_neighbour hne hd
  obtain ⟨hlow, hhigh⟩ := Decimal.value_bounds (shortest_digits_ne_zero hne)
  have hexponent : d.exponent = decimalSize m - (n + 1) := by
    rcases (neighbour?_eq_some hd).2 with rfl | rfl <;> rfl
  have hvalue : (shortest m).value = d.digits * (10 : ℚ) ^ (decimalSize m - (n + 1)) := by
    rw [heq, Decimal.trimZeros_value, Decimal.value, decimalValue, hexponent]
  have hplace : (0 : ℚ) < (10 : ℚ) ^ (decimalSize m - (n + 1)) := by positivity
  have hfirst : (10 : ℚ) ^ (decimalSize m - 1) ≤ (shortest m).value := by
    calc (10 : ℚ) ^ (decimalSize m - 1) =
          tenPow n * (10 : ℚ) ^ (decimalSize m - (n + 1)) := by
            rw [cast_tenPow, ← zpow_natCast, ← zpow_add₀ (by norm_num)]
            congr 1
            ring
      _ ≤ (shortest m).value := by
          rw [hvalue]
          gcongr
  have hlast : (shortest m).value ≤ (10 : ℚ) ^ decimalSize m := by
    calc (shortest m).value ≤ tenPow (n + 1) * (10 : ℚ) ^ (decimalSize m - (n + 1)) := by
          rw [hvalue]
          gcongr
      _ = (10 : ℚ) ^ decimalSize m := by
          rw [cast_tenPow, ← zpow_natCast, ← zpow_add₀ (by norm_num)]
          congr 1
          push_cast
          ring
  have hafter := hfirst.trans_lt hhigh
  have hbefore := hlow.trans hlast
  rw [zpow_lt_zpow_iff_right₀ (by norm_num)] at hafter
  rw [zpow_le_zpow_iff_right₀ (by norm_num)] at hbefore
  rw [Decimal.leadingExponent]
  omega

/-- Exponents have at most three digits. -/
theorem natAbs_shortest_leadingExponent_lt :
    (shortest m).leadingExponent.natAbs < tenPow 3 := by
  obtain ⟨hlow, hhigh⟩ := decimalSize_range hne
  obtain ⟨hleast, hmost⟩ := shortest_leadingExponent hne
  have hthousand : tenPow 3 = 1000 := rfl
  omega

end

end Reckoner.Numeral
