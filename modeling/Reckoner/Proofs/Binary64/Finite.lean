import Reckoner.Proofs.Binary64.ZeroSign

/-!
# Finite Results

What does not exceed a magnitude is not rounded beyond it.  Hence roots, whole parts and the
circular functions of finite numbers are finite, and so are logarithms of positive ones.  Sums,
products, quotients and powers of finite numbers may overflow, but they are never not-a-number:
the quotient of two zeros and the fractional powers of negative numbers are guarded.
-/

namespace Reckoner

namespace Binary64

open Elementary

variable {num den : Nat} {x y : Binary64}

theorem exists_finite (h : x.isFinite) : ∃ n m, x = .finite n m := by
  cases x with
  | finite n m => exact ⟨n, m, rfl⟩
  | _ => cases h

/-! ## Rounded quotients -/

/-- What does not exceed a whole number is not rounded beyond it. -/
theorem divNearest_le_of_le {k : Nat} (h : num ≤ k * den) : divNearest num den ≤ k := by
  rcases Nat.eq_zero_or_pos den with rfl | hden
  · have hzero : num = 0 := Nat.le_zero.mp h
    simp [divNearest, hzero]
  have hquotient : num / den ≤ k := Nat.div_le_of_le_mul (by rw [Nat.mul_comm]; exact h)
  rcases Nat.lt_or_eq_of_le hquotient with hlt | heq
  · exact Nat.le_trans (divNearest_le num den) hlt
  · have hexact : num = k * den := by
      apply Nat.le_antisymm h
      rw [← heq]
      exact Nat.div_mul_le_self num den
    exact Nat.le_of_eq (by rw [hexact, divNearest_mul_self k hden])

/-- What does not exceed a number of 53 significant bits is not rounded beyond it. -/
theorem roundUnits_le_of_aligned {n : Nat} (haligned : spacing n ∣ n) (h : num ≤ n * den) :
    roundUnits num den ≤ n := by
  have hquotient : num / den ≤ n := Nat.div_le_of_le_mul (by rw [Nat.mul_comm]; exact h)
  obtain ⟨k, hk⟩ : spacing (num / den) ∣ n := by
    refine Nat.dvd_trans (twoPow_dvd ?_) haligned
    exact Nat.sub_le_sub_right (log2_le_log2 hquotient) 52
  have hround : divNearest num (den * spacing (num / den)) ≤ k := by
    apply divNearest_le_of_le
    rw [hk] at h
    calc num ≤ spacing (num / den) * k * den := h
      _ = k * (den * spacing (num / den)) := by
          rw [Nat.mul_comm _ k, Nat.mul_assoc, Nat.mul_comm den]
  calc roundUnits num den ≤ k * spacing (num / den) := Nat.mul_le_mul_right _ hround
    _ = n := by rw [Nat.mul_comm, ← hk]

/-- What does not exceed a magnitude is not rounded beyond it. -/
theorem roundUnits_le_units {m : Magnitude} (h : num ≤ m.units * den) :
    roundUnits num den ≤ m.units :=
  roundUnits_le_of_aligned m.aligned h

theorem ofQuotient_isFinite_of_le (negative : Bool) {m : Magnitude} (h : num ≤ m.units * den) :
    (ofQuotient negative num den).isFinite := by
  rw [ofQuotient, dif_pos (Nat.lt_of_le_of_lt (roundUnits_le_units h) m.below)]
  rfl

theorem twoPow_lt {k k' : Nat} (h : k < k') : twoPow k < twoPow k' :=
  Nat.pow_lt_pow_right (by decide) h

theorem twoPow_aligned (k : Nat) : spacing (twoPow k) ∣ twoPow k := by
  have haligned := aligned_of_le (k := 1) (s := k) (twoPow_pos 53)
  rw [Nat.one_mul] at haligned
  exact haligned

/-- A power of two below 2^1024, in units. -/
def powerOfTwo (k : Nat) (h : k < 1024 + unitExponent) : Magnitude where
  units := twoPow k
  below := twoPow_lt h
  aligned := twoPow_aligned k

theorem ofQuotient_isFinite_of_le_twoPow (negative : Bool) {k : Nat} (hk : k < 1024 + unitExponent)
    (h : num ≤ twoPow k * den) : (ofQuotient negative num den).isFinite :=
  ofQuotient_isFinite_of_le negative (m := powerOfTwo k hk) h

theorem ofQuotient_ne_nan (negative : Bool) (num den : Nat) :
    ofQuotient negative num den ≠ .nan := by
  rw [ofQuotient]
  split <;> rintro ⟨⟩

/-! ## Whole numbers -/

theorem trunc_isFinite (h : x.isFinite) : x.trunc.isFinite := by
  obtain ⟨n, m, rfl⟩ := exists_finite h
  apply ofQuotient_isFinite_of_le n (m := m)
  rw [Nat.mul_one]
  exact Nat.div_mul_le_self _ _

theorem roundTiesToEven_isFinite (h : x.isFinite) : x.roundTiesToEven.isFinite := by
  obtain ⟨n, m, rfl⟩ := exists_finite h
  rw [roundTiesToEven]
  by_cases hwhole : unitExponent ≤ m.units.log2 - 52
  · obtain ⟨k, hk⟩ : unitsPerOne ∣ m.units := Nat.dvd_trans (twoPow_dvd hwhole) m.aligned
    apply ofQuotient_isFinite_of_le n (m := m) (Nat.le_of_eq _)
    rw [hk, Nat.mul_comm unitsPerOne k, divNearest_mul_self k unitsPerOne_pos, Nat.mul_one]
  · apply ofQuotient_isFinite_of_le_twoPow n (k := 53 + unitExponent) (by decide)
    rw [Nat.mul_one, twoPow_add]
    apply Nat.mul_le_mul_right
    apply divNearest_le_of_le
    calc m.units ≤ twoPow (m.units.log2 + 1) := Nat.le_of_lt (lt_twoPow_log2 _)
      _ ≤ twoPow (53 + unitExponent) := twoPow_le (by omega)
      _ = twoPow 53 * unitsPerOne := by rw [twoPow_add, unitsPerOne]

/-! ## Roots -/

theorem descendToRoot_le (n guess : Nat) : descendToRoot n guess ≤ guess := by
  induction guess using Nat.strongRecOn with
  | ind guess ih =>
    rw [descendToRoot]
    split
    case isTrue hless => exact Nat.le_trans (ih _ hless) (Nat.le_of_lt hless)
    case isFalse => exact Nat.le_refl _

theorem root_isFinite {square extra k : Nat} (hextra : extra ≤ 1) (h : square.log2 < 2 * k)
    (hk : k + 1 < 1024 + unitExponent) :
    (ofQuotient false (2 * floorSqrt square + extra) 2).isFinite := by
  have hroot : floorSqrt square ≤ twoPow k :=
    Nat.le_trans (descendToRoot_le _ _) (twoPow_le (by omega))
  have hnext := twoPow_lt (Nat.lt_add_one k)
  apply ofQuotient_isFinite_of_le_twoPow false hk
  omega

theorem log2_square_lt {m : Magnitude} (h : m.units ≠ 0) :
    (m.units * unitsPerOne).log2 < 1024 + unitExponent + unitExponent := by
  rw [log2_lt_iff (Nat.mul_ne_zero h (Nat.ne_of_gt unitsPerOne_pos))]
  calc m.units * unitsPerOne < overflow * unitsPerOne :=
        Nat.mul_lt_mul_of_pos_right m.below unitsPerOne_pos
    _ = twoPow (1024 + unitExponent + unitExponent) := by
        rw [overflow, unitsPerOne, ← twoPow_add]

theorem sqrt_isFinite (m : Magnitude) : (sqrt (.finite false m)).isFinite := by
  simp only [sqrt]
  split
  case isTrue => rfl
  case isFalse hunits =>
    have hlog : (m.units * unitsPerOne).log2 < 2 * (512 + unitExponent) :=
      Nat.lt_of_lt_of_le (log2_square_lt hunits) (by omega)
    simp only [Bool.false_eq_true, if_false]
    apply root_isFinite _ hlog (by omega)
    split <;> omega

/-! ## Enclosed values -/

theorem ofScaled_ne_nan (n exponent : Int) : ofScaled n exponent ≠ .nan := by
  simp only [ofScaled]
  split
  · exact nofun
  split
  · exact nofun
  split
  · exact nofun
  split <;> exact ofQuotient_ne_nan _ _ _

/-- A scaled integer of moderate size is finite. -/
theorem ofScaled_isFinite {n : Int} {precision extra : Nat} (hextra : extra < 1024)
    (h : n.natAbs ≤ twoPow (precision + extra)) : (ofScaled n (-precision)).isFinite := by
  have hlog : n.natAbs.log2 ≤ precision + extra := by
    have hlog := log2_le_log2 h
    rw [log2_twoPow] at hlog
    exact hlog
  simp only [ofScaled]
  split
  case isTrue => rfl
  rw [if_neg (by omega)]
  split
  case isTrue => rfl
  split
  case isTrue hplaces =>
    have hsplit : extra + unitExponent =
        precision + extra + (-(precision : Int) + unitExponent).toNat := by
      omega
    apply ofQuotient_isFinite_of_le_twoPow _ (k := extra + unitExponent) (by omega)
    rw [Nat.mul_one, hsplit, twoPow_add]
    exact Nat.mul_le_mul_right _ h
  case isFalse hplaces =>
    have hsplit : precision + extra =
        extra + unitExponent + (-(-(precision : Int) + unitExponent)).toNat := by
      omega
    apply ofQuotient_isFinite_of_le_twoPow _ (k := extra + unitExponent) (by omega)
    rw [← twoPow_add, ← hsplit]
    exact h

theorem settleFrom_eq_lowest (enclose : Nat → Enclosure) (left precision : Nat) :
    ∃ precision', settleFrom enclose left precision = (enclose precision').lowest := by
  induction left generalizing precision with
  | zero => exact ⟨precision, rfl⟩
  | succ left ih =>
    rw [settleFrom]
    split
    case isTrue => exact ⟨precision, rfl⟩
    case isFalse => exact ih (2 * precision)

theorem settle_ne_nan (enclose : Nat → Enclosure) : settle enclose ≠ .nan := by
  obtain ⟨precision, h⟩ := settleFrom_eq_lowest enclose refinements firstPrecision
  rw [settle, h]
  exact ofScaled_ne_nan _ _

theorem natAbs_clip_low_le (bound : Nat) (e : Enclosure) : (e.clip bound).low.natAbs ≤ bound := by
  simp only [Enclosure.clip]
  omega

/-- What is enclosed between moderate bounds is finite. -/
theorem settle_isFinite {enclose : Nat → Enclosure} (extra : Nat) (hextra : extra < 1024)
    (h : ∀ precision : Nat, ∃ e : Enclosure, e.exponent = -precision ∧
      enclose precision = e.clip (twoPow (precision + extra))) : (settle enclose).isFinite := by
  obtain ⟨precision, hsettle⟩ := settleFrom_eq_lowest enclose refinements firstPrecision
  obtain ⟨e, hexponent, he⟩ := h precision
  rw [settle, hsettle, he, Enclosure.lowest]
  change (ofScaled _ e.exponent).isFinite
  rw [hexponent]
  exact ofScaled_isFinite hextra (natAbs_clip_low_le _ e)

/-! ## Circular functions and logarithms -/

theorem neg_isFinite (h : x.isFinite) : x.neg.isFinite := by
  obtain ⟨n, m, rfl⟩ := exists_finite h
  rfl

theorem abs_isFinite (h : x.isFinite) : x.abs.isFinite := by
  obtain ⟨n, m, rfl⟩ := exists_finite h
  rfl

theorem settle_encloseSine_isFinite (units turns : Nat) :
    (settle (encloseSine units turns)).isFinite :=
  settle_isFinite 0 (by decide) fun precision ↦ ⟨_, rfl, rfl⟩

theorem settle_encloseTangent_isFinite (units : Nat) :
    (settle (encloseTangent units)).isFinite := by
  apply settle_isFinite 64 (by decide)
  intro precision
  refine ⟨_, ?_, rfl⟩
  dsimp only
  split
  · rfl
  · split <;> rfl

theorem settle_encloseLog_isFinite (units : Nat) : (settle (encloseLog units)).isFinite :=
  settle_isFinite 10 (by decide) fun precision ↦ ⟨_, rfl, rfl⟩

theorem sin_isFinite (h : x.isFinite) : x.sin.isFinite := by
  obtain ⟨n, m, rfl⟩ := exists_finite h
  have hsine := settle_encloseSine_isFinite m.units 0
  simp only [sin]
  split
  · rfl
  · split
    · exact neg_isFinite hsine
    · exact hsine

theorem cos_isFinite (h : x.isFinite) : x.cos.isFinite := by
  obtain ⟨n, m, rfl⟩ := exists_finite h
  exact settle_encloseSine_isFinite m.units 1

theorem tan_isFinite (h : x.isFinite) : x.tan.isFinite := by
  obtain ⟨n, m, rfl⟩ := exists_finite h
  have htangent := settle_encloseTangent_isFinite m.units
  simp only [tan]
  split
  · rfl
  · split
    · exact neg_isFinite htangent
    · exact htangent

/-! ## Powers -/

theorem neg_ne_nan (h : x ≠ .nan) : x.neg ≠ .nan := by
  cases x with
  | nan => exact absurd rfl h
  | _ => exact nofun

theorem positivePower_ne_nan (base : Nat) (negative : Bool) (exponent : Nat) :
    positivePower base negative exponent ≠ .nan := by
  rw [positivePower]
  split
  · rw [roundProduct]
    split <;> exact ofScaled_ne_nan _ _
  · exact settle_ne_nan _

theorem boundaryPower_ne_nan (grows negative : Bool) : boundaryPower grows negative ≠ .nan := by
  cases grows <;> exact nofun

theorem one_ne_nan : one ≠ .nan := by
  rw [one, ofNat]
  exact ofQuotient_ne_nan _ _ _

/-- A negative number has a sign and is not zero. -/
theorem less_zero_of_negative {m : Magnitude} (h : m.units ≠ 0) :
    (finite true m).less zero := by
  simp only [less, zero, signedUnits, units_zero]
  simp
  omega

/-- The guard of fractional powers leaves no power of finite numbers without a value. -/
theorem pow_ne_nan (hx : x.isFinite) (hy : y.isFinite)
    (hguard : ¬ (x.less zero && !y.isIntegral)) : x.pow y ≠ .nan := by
  obtain ⟨n, m, rfl⟩ := exists_finite hx
  obtain ⟨n', m', rfl⟩ := exists_finite hy
  simp only [pow]
  split
  case isTrue => exact one_ne_nan
  split
  case isTrue => exact boundaryPower_ne_nan _ _
  case isFalse hunits =>
    split
    case isTrue hfraction =>
      rw [Bool.and_eq_true] at hfraction
      obtain ⟨rfl, hfraction⟩ := hfraction
      rw [less_zero_of_negative hunits, hfraction] at hguard
      exact absurd rfl hguard
    case isFalse =>
      have hvalue : (if m.units = unitsPerOne then one else positivePower m.units n' m'.units) ≠
          .nan := by
        split
        · exact one_ne_nan
        · exact positivePower_ne_nan _ _ _
      split
      · exact neg_ne_nan hvalue
      · exact hvalue

/-! ## Guarded operations -/

theorem squareRoot_isFinite {value : Binary64} (hx : x.isFinite) (h : x.squareRoot = .ok value) :
    value.isFinite := by
  obtain ⟨n, m, rfl⟩ := exists_finite hx
  rw [squareRoot] at h
  split at h
  case isTrue => cases h
  case isFalse hless =>
    cases h
    cases n with
    | false => exact sqrt_isFinite m
    | true =>
      have hunits : m.units = 0 :=
        Decidable.byContradiction fun hunits ↦ hless (less_zero_of_negative hunits)
      simp [sqrt, hunits, isFinite]

theorem logarithm_isFinite {value : Binary64} (hx : x.isFinite) (h : x.logarithm = .ok value) :
    value.isFinite := by
  obtain ⟨n, m, rfl⟩ := exists_finite hx
  rw [logarithm] at h
  split at h
  case isTrue => cases h
  case isFalse hpositive =>
    cases h
    rw [lessOrEqual, Bool.or_eq_true, not_or] at hpositive
    obtain ⟨hless, hequals⟩ := hpositive
    have hunits : m.units ≠ 0 := by
      intro hunits
      simp [equals, zero, signedUnits, units_zero, hunits] at hequals
    cases n with
    | false =>
      simp only [log, if_neg hunits, Bool.false_eq_true, if_false]
      split
      · rfl
      · exact settle_encloseLog_isFinite _
    | true => exact absurd (less_zero_of_negative hunits) hless

theorem power_ne_nan (hx : x.isFinite) (hy : y.isFinite) : x.power y ≠ .ok .nan := by
  rw [power]
  split
  case isTrue => rintro ⟨⟩
  split
  case isTrue => rintro ⟨⟩
  case isFalse hguard =>
    intro h
    exact pow_ne_nan hx hy hguard (Except.ok.inj h)

theorem add_ne_nan (hx : x.isFinite) (hy : y.isFinite) : x.add y ≠ .nan := by
  obtain ⟨n, m, rfl⟩ := exists_finite hx
  obtain ⟨n', m', rfl⟩ := exists_finite hy
  simp only [add]
  split
  · rintro ⟨⟩
  · exact ofQuotient_ne_nan _ _ _

theorem mul_ne_nan (hx : x.isFinite) (hy : y.isFinite) : x.mul y ≠ .nan := by
  obtain ⟨n, m, rfl⟩ := exists_finite hx
  obtain ⟨n', m', rfl⟩ := exists_finite hy
  exact ofQuotient_ne_nan _ _ _

theorem quotient_ne_nan (hx : x.isFinite) (hy : y.isFinite) : x.quotient y ≠ .ok .nan := by
  obtain ⟨n, m, rfl⟩ := exists_finite hx
  obtain ⟨n', m', rfl⟩ := exists_finite hy
  rw [quotient]
  split
  case isTrue => rintro ⟨⟩
  case isFalse hzero =>
    have hunits : m'.units ≠ 0 := fun hunits ↦ hzero (beq_iff_eq.mpr hunits)
    intro h
    have hdiv := Except.ok.inj h
    simp only [div, if_neg hunits] at hdiv
    exact ofQuotient_ne_nan _ _ _ hdiv

end Binary64

/-- No operation makes not-a-number out of finite numbers. -/
theorem Operator.apply_ne_nan (operator : Operator) {x y : Binary64} (hx : x.isFinite)
    (hy : y.isFinite) : operator.apply x y ≠ .ok .nan := by
  cases operator with
  | add => exact fun h ↦ Binary64.add_ne_nan hx hy (Except.ok.inj h)
  | sub => exact fun h ↦ Binary64.add_ne_nan hx (Binary64.neg_isFinite hy) (Except.ok.inj h)
  | mul => exact fun h ↦ Binary64.mul_ne_nan hx hy (Except.ok.inj h)
  | div => exact Binary64.quotient_ne_nan hx hy
  | pow => exact Binary64.power_ne_nan hx hy

end Reckoner
