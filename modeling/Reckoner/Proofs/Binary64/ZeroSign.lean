import Reckoner.Expr.Evaluate
import Reckoner.Proofs.Attempt
import Reckoner.Proofs.Binary64.Rounding
import Reckoner.ResultText

/-!
# The Sign of a Zero

Two doubles are the same number if they are equal or both zeros.  Every operation takes the same
numbers to the same number or to the same fault, and the text of a result does not tell them
apart.  Division and negative powers, which would turn the sign of a zero into that of an infinity,
are guarded.
-/

namespace Reckoner

namespace Binary64

/-- Equal, but for the sign of a zero. -/
def SameNumber (x y : Binary64) : Prop := x = y ∨ (x.isZero ∧ y.isZero)

abbrev SameOutcome : Evaluation → Evaluation → Prop := Alike SameNumber

def zeroOf (negative : Bool) : Binary64 := .finite negative .zero

variable {x x' y y' z : Binary64}

theorem isZero_iff : x.isZero ↔ ∃ n, x = zeroOf n := by
  constructor
  · intro h
    cases x with
    | nan => cases h
    | infinite n => cases h
    | finite n m =>
      have hunits : m.units = Magnitude.zero.units := beq_iff_eq.mp h
      exact ⟨n, congrArg _ (Magnitude.ext hunits)⟩
  · rintro ⟨n, rfl⟩
    rfl

theorem SameNumber.refl (x : Binary64) : SameNumber x x := .inl rfl

theorem sameNumber_zeroOf (n n' : Bool) : SameNumber (zeroOf n) (zeroOf n') := .inr ⟨rfl, rfl⟩

theorem SameNumber.symm (h : SameNumber x y) : SameNumber y x := h.imp Eq.symm And.symm

theorem SameNumber.trans (hxy : SameNumber x y) (hyz : SameNumber y z) : SameNumber x z := by
  rcases hxy with rfl | ⟨hx, hy⟩
  · exact hyz
  · rcases hyz with rfl | ⟨-, hz⟩
    · exact .inr ⟨hx, hy⟩
    · exact .inr ⟨hx, hz⟩

theorem SameOutcome.refl (o : Evaluation) : SameOutcome o o := Alike.refl SameNumber.refl o

theorem SameOutcome.trans {o o' o'' : Evaluation} (h : SameOutcome o o')
    (h' : SameOutcome o' o'') : SameOutcome o o'' :=
  Alike.trans h h' fun _ _ _ ↦ SameNumber.trans

/-- What holds between the two zeros holds between the same numbers. -/
theorem SameNumber.lift {α : Type} {related : α → α → Prop} (hrefl : ∀ a, related a a)
    {f : Binary64 → α} (hzero : ∀ n n', related (f (zeroOf n)) (f (zeroOf n')))
    (h : SameNumber x y) : related (f x) (f y) := by
  rcases h with rfl | ⟨hx, hy⟩
  · exact hrefl _
  · obtain ⟨n, rfl⟩ := isZero_iff.mp hx
    obtain ⟨n', rfl⟩ := isZero_iff.mp hy
    exact hzero n n'

theorem SameNumber.lift₂ {α : Type} {related : α → α → Prop} (hrefl : ∀ a, related a a)
    (htrans : ∀ {a b c}, related a b → related b c → related a c) {f : Binary64 → Binary64 → α}
    (hleft : ∀ n n' z, related (f (zeroOf n) z) (f (zeroOf n') z))
    (hright : ∀ n n' z, related (f z (zeroOf n)) (f z (zeroOf n')))
    (hx : SameNumber x x') (hy : SameNumber y y') : related (f x y) (f x' y') := by
  have hfirst : related (f x y) (f x' y) :=
    hx.lift (f := fun x ↦ f x y) hrefl fun n n' ↦ hleft n n' y
  have hsecond : related (f x' y) (f x' y') :=
    hy.lift (f := f x') hrefl fun n n' ↦ hright n n' x'
  exact htrans hfirst hsecond

theorem SameNumber.isFinite_eq (h : SameNumber x y) : x.isFinite = y.isFinite :=
  h.lift (fun _ ↦ rfl) fun _ _ ↦ rfl

theorem SameNumber.finiteOnly (h : SameNumber x y) : SameOutcome x.finiteOnly y.finiteOnly := by
  rw [Binary64.finiteOnly, Binary64.finiteOnly, h.isFinite_eq]
  split
  · exact h
  · rfl

theorem SameNumber.resultText (h : SameNumber x y) : x.resultText = y.resultText :=
  h.lift (fun _ ↦ rfl) fun _ _ ↦ rfl

/-! ## Arithmetic -/

theorem SameNumber.neg (h : SameNumber x y) : SameNumber x.neg y.neg :=
  h.lift SameNumber.refl fun n n' ↦ sameNumber_zeroOf (!n) (!n')

theorem SameNumber.abs (h : SameNumber x y) : SameNumber x.abs y.abs :=
  h.lift SameNumber.refl fun _ _ ↦ SameNumber.refl _

/-- A zero times or over anything finite. -/
theorem ofQuotient_zero {den : Nat} (hden : 0 < den) (negative : Bool) :
    ofQuotient negative 0 den = zeroOf negative :=
  ofQuotient_eq_zero negative (by omega)

theorem units_zero : Magnitude.zero.units = 0 := rfl

theorem signedUnits_zero (n : Bool) : signedUnits n .zero = 0 := by
  cases n <;> rfl

theorem add_zeroOf (n n' : Bool) (x : Binary64) :
    SameNumber (x.add (zeroOf n)) (x.add (zeroOf n')) := by
  cases x with
  | nan => exact .inl rfl
  | infinite b => exact .inl rfl
  | finite b m =>
    simp only [add, zeroOf, signedUnits_zero]
    split
    · exact sameNumber_zeroOf _ _
    · exact SameNumber.refl _

theorem zeroOf_add (n n' : Bool) (x : Binary64) :
    SameNumber ((zeroOf n).add x) ((zeroOf n').add x) := by
  cases x with
  | nan => exact .inl rfl
  | infinite b => exact .inl rfl
  | finite b m =>
    simp only [add, zeroOf, signedUnits_zero]
    split
    · exact sameNumber_zeroOf _ _
    · exact SameNumber.refl _

theorem SameNumber.add (hx : SameNumber x x') (hy : SameNumber y y') :
    SameNumber (x.add y) (x'.add y') :=
  hx.lift₂ SameNumber.refl SameNumber.trans zeroOf_add add_zeroOf hy

theorem SameNumber.sub (hx : SameNumber x x') (hy : SameNumber y y') :
    SameNumber (x.sub y) (x'.sub y') :=
  hx.add hy.neg

theorem zeroOf_mul (n n' : Bool) (x : Binary64) :
    SameNumber ((zeroOf n).mul x) ((zeroOf n').mul x) := by
  cases x with
  | nan => exact .inl rfl
  | infinite b => exact .inl rfl
  | finite b m =>
    simp only [mul, zeroOf, units_zero, Nat.zero_mul, ofQuotient_zero unitsPerOne_pos]
    exact sameNumber_zeroOf _ _

theorem mul_zeroOf (n n' : Bool) (x : Binary64) :
    SameNumber (x.mul (zeroOf n)) (x.mul (zeroOf n')) := by
  cases x with
  | nan => exact .inl rfl
  | infinite b => exact .inl rfl
  | finite b m =>
    simp only [mul, zeroOf, units_zero, Nat.mul_zero, ofQuotient_zero unitsPerOne_pos]
    exact sameNumber_zeroOf _ _

theorem SameNumber.mul (hx : SameNumber x x') (hy : SameNumber y y') :
    SameNumber (x.mul y) (x'.mul y') :=
  hx.lift₂ SameNumber.refl SameNumber.trans zeroOf_mul mul_zeroOf hy

theorem zeroOf_quotient (n n' : Bool) (x : Binary64) :
    SameOutcome ((zeroOf n).quotient x) ((zeroOf n').quotient x) := by
  rw [quotient, quotient]
  split
  case isTrue => exact rfl
  case isFalse hzero =>
    cases x with
    | nan => exact .inl rfl
    | infinite b => exact sameNumber_zeroOf _ _
    | finite b m =>
      have hunits : m.units ≠ 0 := by
        intro h
        exact hzero (beq_iff_eq.mpr h)
      simp only [div, zeroOf, if_neg hunits, units_zero, Nat.zero_mul,
        ofQuotient_zero (Nat.pos_of_ne_zero hunits)]
      exact sameNumber_zeroOf _ _

theorem SameOutcome.quotient (hx : SameNumber x x') (hy : SameNumber y y') :
    SameOutcome (x.quotient y) (x'.quotient y') :=
  hx.lift₂ SameOutcome.refl SameOutcome.trans zeroOf_quotient
    (fun _ _ _ ↦ rfl) hy

/-! ## Rounding to whole numbers -/

theorem SameNumber.trunc (h : SameNumber x y) : SameNumber x.trunc y.trunc := by
  apply h.lift SameNumber.refl
  intro n n'
  have hzero : Magnitude.zero.units / unitsPerOne * unitsPerOne = 0 := by
    rw [units_zero, Nat.zero_div, Nat.zero_mul]
  simp only [Binary64.trunc, zeroOf, hzero, ofQuotient_zero Nat.one_pos]
  exact sameNumber_zeroOf n n'

theorem SameNumber.roundTiesToEven (h : SameNumber x y) :
    SameNumber x.roundTiesToEven y.roundTiesToEven := by
  apply h.lift SameNumber.refl
  intro n n'
  have hzero : divNearest Magnitude.zero.units unitsPerOne * unitsPerOne = 0 := by
    have hnearest := divNearest_mul_self 0 unitsPerOne_pos
    rw [Nat.zero_mul] at hnearest
    rw [units_zero, hnearest, Nat.zero_mul]
  simp only [Binary64.roundTiesToEven, zeroOf, hzero, ofQuotient_zero Nat.one_pos]
  exact sameNumber_zeroOf n n'

/-! ## Roots, logarithms and circular functions -/

theorem less_zeroOf (n : Bool) (x : Binary64) : (zeroOf n).less x = zero.less x := by
  cases x with
  | nan => rfl
  | infinite b => rfl
  | finite b m => simp only [less, zero, zeroOf, signedUnits_zero]

theorem less_zero_self (n : Bool) : (zeroOf n).less zero = false := by
  rw [less_zeroOf]
  simp [less, zero]

theorem SameOutcome.squareRoot (h : SameNumber x y) : SameOutcome x.squareRoot y.squareRoot := by
  apply h.lift SameOutcome.refl
  intro n n'
  simp only [Binary64.squareRoot, less_zero_self]
  exact sameNumber_zeroOf n n'

theorem SameOutcome.logarithm (h : SameNumber x y) : SameOutcome x.logarithm y.logarithm := by
  apply h.lift SameOutcome.refl
  intro n n'
  have hequals : ∀ n, (zeroOf n).lessOrEqual zero := by
    intro n
    simp [lessOrEqual, equals, zeroOf, zero, signedUnits_zero]
  simp only [Binary64.logarithm, hequals]
  exact rfl

theorem linearBelow_pos : 0 < Elementary.linearBelow := twoPow_pos _

theorem SameNumber.sin (h : SameNumber x y) : SameNumber x.sin y.sin := by
  apply h.lift SameNumber.refl
  intro n n'
  have hlinear : Magnitude.zero.units < Elementary.linearBelow := linearBelow_pos
  simp only [Binary64.sin, zeroOf, if_pos hlinear]
  exact sameNumber_zeroOf n n'

theorem SameNumber.cos (h : SameNumber x y) : SameNumber x.cos y.cos :=
  h.lift SameNumber.refl fun _ _ ↦ SameNumber.refl _

theorem SameNumber.tan (h : SameNumber x y) : SameNumber x.tan y.tan := by
  apply h.lift SameNumber.refl
  intro n n'
  have hlinear : Magnitude.zero.units < Elementary.linearBelow := linearBelow_pos
  simp only [Binary64.tan, zeroOf, if_pos hlinear]
  exact sameNumber_zeroOf n n'

/-! ## Powers -/

theorem one_ne_zeroOf (n : Bool) : one ≠ zeroOf n := by
  intro h
  have hone : one.isZero = false := by decide +kernel
  rw [h] at hone
  cases hone

/-- A power of zero with an exponent that is not negative. -/
theorem zeroOf_pow (n n' : Bool) (hless : x.less zero = false) :
    SameNumber ((zeroOf n).pow x) ((zeroOf n').pow x) := by
  have hone : ∀ n, (zeroOf n == one) = false := by
    intro n
    rw [beq_eq_false_iff_ne]
    exact (one_ne_zeroOf n).symm
  simp only [Binary64.pow, hone, Bool.or_false]
  split
  case isTrue => exact SameNumber.refl _
  case isFalse hzero =>
    cases x with
    | nan => exact SameNumber.refl _
    | infinite b => exact SameNumber.refl _
    | finite b m =>
      cases b with
      | false =>
        simp only [zeroOf, units_zero, if_pos, boundaryPower]
        exact sameNumber_zeroOf _ _
      | true =>
        have hunits : m.units = 0 := by
          simpa [less, zero, signedUnits, units_zero] using hless
        exact absurd (beq_iff_eq.mpr hunits) hzero

theorem zeroOf_power (n n' : Bool) (x : Binary64) :
    SameOutcome ((zeroOf n).power x) ((zeroOf n').power x) := by
  have hzero : ∀ n, (zeroOf n).isZero := fun _ ↦ rfl
  simp only [Binary64.power, hzero, less_zero_self, Bool.true_and, Bool.false_and]
  cases hless : x.less zero with
  | true => exact rfl
  | false => exact zeroOf_pow n n' hless

theorem power_zeroOf (n : Bool) (x : Binary64) : x.power (zeroOf n) = .ok one := by
  have hintegral : (zeroOf n).isIntegral := by
    simp [isIntegral, zeroOf, units_zero]
  have hzero : (zeroOf n).isZero := rfl
  simp [Binary64.power, less_zero_self, hintegral, Binary64.pow, hzero]

theorem SameOutcome.power (hx : SameNumber x x') (hy : SameNumber y y') :
    SameOutcome (x.power y) (x'.power y') := by
  apply hx.lift₂ SameOutcome.refl SameOutcome.trans zeroOf_power _ hy
  intro n n' z
  rw [power_zeroOf, power_zeroOf]
  exact SameOutcome.refl _

/-! ## Comparing as equal -/

theorem signedUnits_eq_zero_iff {negative : Bool} {m : Magnitude} :
    signedUnits negative m = 0 ↔ m.units = 0 := by
  cases negative <;> simp [signedUnits]

/-- Signed counts of units give back the sign and the magnitude, but for a zero. -/
theorem signedUnits_inj {n n' : Bool} {m m' : Magnitude} (hne : m.units ≠ 0)
    (h : signedUnits n m = signedUnits n' m') : n = n' ∧ m = m' := by
  cases n <;> cases n' <;> simp only [signedUnits, if_true, Bool.false_eq_true, if_false] at h
  case false.false => exact ⟨rfl, Magnitude.ext (by omega)⟩
  case false.true => omega
  case true.false => omega
  case true.true => exact ⟨rfl, Magnitude.ext (by omega)⟩

/-- Numbers that compare as equal are the same number. -/
theorem SameNumber.of_equals (h : x.equals y) : SameNumber x y := by
  cases x with
  | nan => cases h
  | infinite n =>
    cases y with
    | nan => cases h
    | infinite n' => exact .inl (congrArg infinite (beq_iff_eq.mp h))
    | finite n' m' => cases h
  | finite n m =>
    cases y with
    | nan => cases h
    | infinite n' => cases h
    | finite n' m' =>
      have hunits : signedUnits n m = signedUnits n' m' := beq_iff_eq.mp h
      by_cases hzero : m.units = 0
      · rw [signedUnits_eq_zero_iff.mpr hzero, eq_comm, signedUnits_eq_zero_iff] at hunits
        exact .inr ⟨beq_iff_eq.mpr hzero, beq_iff_eq.mpr hunits⟩
      · obtain ⟨rfl, rfl⟩ := signedUnits_inj hzero hunits
        exact .refl _

theorem equals_self (hfinite : x.isFinite) : x.equals x := by
  cases x with
  | nan => cases hfinite
  | infinite n => cases hfinite
  | finite n m => exact beq_self_eq_true _

/-- The same finite number compares as equal. -/
theorem SameNumber.equals (h : SameNumber x y) (hfinite : x.isFinite) : x.equals y := by
  rcases h with rfl | ⟨hx, hy⟩
  · exact equals_self hfinite
  · obtain ⟨n, rfl⟩ := isZero_iff.mp hx
    obtain ⟨n', rfl⟩ := isZero_iff.mp hy
    simp only [Binary64.equals, zeroOf, signedUnits_zero, beq_self_eq_true]

end Binary64

end Reckoner
