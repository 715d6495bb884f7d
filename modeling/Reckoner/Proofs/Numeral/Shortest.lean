import Reckoner.Numeral.Shortest
import Reckoner.Proofs.Binary64.Decimal

/-!
# Shortest Decimals Read Back

The shortest decimal of a magnitude gives the magnitude again.  A candidate is taken only if it
does, the exact decimal that stands in for a missing candidate is the magnitude itself, and moving
zeros into the exponent changes no value.
-/

namespace Reckoner.Numeral

namespace Decimal

def value (d : Decimal) : ℚ := decimalValue d.digits d.exponent

theorem trimZeros_value (d : Decimal) : d.trimZeros.value = d.value := by
  induction d using trimZeros.induct with
  | case1 d h ih =>
    have hdigits : d.digits = d.digits / 10 * 10 := by omega
    rw [trimZeros, if_pos h, ih, value, value, decimalValue, decimalValue,
      zpow_add₀ (by norm_num), zpow_one]
    conv => rhs; rw [hdigits]
    push_cast
    ring
  | case2 d h => rw [trimZeros, if_neg h]

theorem toBinary64_congr {d d' : Decimal} (h : d.value = d'.value) (negative : Bool) :
    d.toBinary64 negative = d'.toBinary64 negative :=
  Binary64.ofDecimal_congr negative h

theorem exact_value (m : Magnitude) :
    (m.units : ℚ) = (exact m).value * Binary64.unitsPerOne := by
  rw [value, exact, decimalValue, Binary64.unitsPerOne, twoPow_eq]
  generalize Binary64.unitExponent = n
  have hten : (10 : ℚ) ^ n = 5 ^ n * 2 ^ n := by
    rw [← mul_pow]
    norm_num
  have hfive : ((Nat.pow 5 n : Nat) : ℚ) = 5 ^ n := Nat.cast_pow 5 n
  rw [Nat.cast_mul, hfive, zpow_neg, zpow_natCast, hten, Nat.cast_pow, Nat.cast_ofNat]
  field_simp

theorem exact_toBinary64 (m : Magnitude) (negative : Bool) :
    (exact m).toBinary64 negative = .finite negative m :=
  Binary64.ofDecimal_eq_finite negative (exact_value m)

end Decimal

/-! ## Neighbours -/

theorem readsBack_iff {m : Magnitude} {d : Decimal} :
    readsBack m d ↔ d.toBinary64 false = .finite false m := beq_iff_eq

section

variable {m : Magnitude} {place : Int}

/-- The greatest multiple of `10^place` that is not above the magnitude, in such multiples. -/
def lowDigits (m : Magnitude) (place : Int) : Nat := (inPlaces m place).1 / (inPlaces m place).2

/-- A neighbour reads back, and is one of the two multiples around the magnitude. -/
theorem neighbour?_eq_some {d : Decimal} (h : neighbour? m place = some d) :
    readsBack m d ∧ (d = ⟨lowDigits m place, place⟩ ∨ d = ⟨lowDigits m place + 1, place⟩) := by
  unfold neighbour? at h
  dsimp only at h
  split at h
  case isTrue hlow =>
    cases h
    exact ⟨(Bool.and_eq_true_iff.mp hlow).1, .inl rfl⟩
  case isFalse =>
    split at h
    case isTrue hhigh =>
      cases h
      exact ⟨hhigh, .inr rfl⟩
    case isFalse => cases h

/-- There is a neighbour if one of the two multiples reads back. -/
theorem exists_neighbour (h : readsBack m ⟨lowDigits m place, place⟩ ∨
    readsBack m ⟨lowDigits m place + 1, place⟩) : ∃ d, neighbour? m place = some d := by
  unfold neighbour?
  dsimp only
  rw [← lowDigits]
  split
  case isTrue => exact ⟨_, rfl⟩
  case isFalse hlow =>
    split
    case isTrue => exact ⟨_, rfl⟩
    case isFalse hhigh =>
      rcases h with h | h
      · simp [h, hhigh] at hlow
      · exact absurd h hhigh

theorem toBinary64_of_neighbour? {d : Decimal} (h : neighbour? m place = some d) :
    d.toBinary64 false = .finite false m :=
  readsBack_iff.mp (neighbour?_eq_some h).1

end

/-- The shortest decimal reads back. -/
theorem shortest_toBinary64 (m : Magnitude) :
    (shortest m).toBinary64 false = .finite false m := by
  rw [shortest, Decimal.toBinary64_congr (Decimal.trimZeros_value _)]
  cases hfound : (List.range enoughDigits).findSome? fun n : Nat ↦
      neighbour? m (decimalSize m - (n + 1)) with
  | none => exact Decimal.exact_toBinary64 m false
  | some d =>
    obtain ⟨n, -, hneighbour⟩ := List.exists_of_findSome?_eq_some hfound
    exact toBinary64_of_neighbour? hneighbour

end Reckoner.Numeral
