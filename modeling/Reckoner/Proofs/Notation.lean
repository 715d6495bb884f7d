import Reckoner.Proofs.Numeral.Forms
import Reckoner.Proofs.Numeral.Places
import Reckoner.Proofs.ResultText

/-!
# The Notation of a Result

A result is written without an exponent exactly if it is at least 1e-4 and less than 1e16, its sign
apart.  The choice is made by the exponent of the shortest digits and not by the number, but reading
them back keeps the order, so no number that is below a bound has digits that reach it.

The exponent may as well be read off the scientific text of the number, which always has one.
-/

namespace Reckoner

open Binary64

namespace Numeral

variable {negative : Bool}

/-! ## The scientific text -/

/-- The shortest digits as mantissa and exponent, with a sign of the exponent only if it is a
minus. -/
def scientificText (negative : Bool) (m : Magnitude) : List Char :=
  let exponent := (shortest m).leadingExponent
  signText negative ++ mantissa (shortest m) ++
    'e' :: (signText (decide (exponent < 0)) ++ digitsOf exponent.natAbs)

def splitOnce (c : Char) (text : List Char) : Option (List Char × List Char) :=
  match text.dropWhile (· != c) with
  | _ :: after => some (text.takeWhile (· != c), after)
  | [] => none

/-- The number that one or more digits write. -/
def readNatural? (digits : List Char) : Option Int :=
  if digits ≠ [] ∧ digits.all Char.isDigit then some (readDigits digits) else none

def readInteger? : List Char → Option Int
  | '-' :: digits => (readNatural? digits).map (- ·)
  | '+' :: digits => readNatural? digits
  | digits => readNatural? digits

/-- The number that the text writes, if it fits in 32 bits with its sign. -/
def readInt32? (text : List Char) : Option Int := do
  let n ← readInteger? text
  if -(twoPow 31 : Int) ≤ n ∧ n < twoPow 31 then some n else none

def scientificParts? (text : List Char) : Option (List Char × Int) := do
  let (mantissa, exponent) ← splitOnce 'e' text
  return (mantissa, ← readInt32? exponent)

/-- The text of a number as it is put together from its scientific text.  If this had no parts, all
of it would be the mantissa and the exponent would be zero. -/
def textFromParts (negative : Bool) (m : Magnitude) : List Char :=
  let scientific := scientificText negative m
  let (mantissa, exponent) := (scientificParts? scientific).getD (scientific, 0)
  if leastFullExponent ≤ exponent ∧ exponent < endOfFullExponents then
    signText negative ++ positional (shortest m)
  else
    mantissa ++ 'e' :: (if exponent < 0 then '-' else '+') ::
      paddedDigits leastExponentDigits exponent.natAbs

theorem splitOnce_append {c : Char} {before : List Char} (h : c ∉ before) (after : List Char) :
    splitOnce c (before ++ c :: after) = some (before, after) := by
  have hpasses : ∀ x ∈ before, (x != c) = true := by
    intro x hx
    rw [bne_iff_ne]
    rintro rfl
    exact h hx
  rw [splitOnce, List.dropWhile_append_of_pos hpasses, List.takeWhile_append_of_pos hpasses,
    List.dropWhile_cons_of_neg (by simp), List.takeWhile_cons_of_neg (by simp), List.append_nil]

theorem readNatural?_digitsOf (n : Nat) : readNatural? (digitsOf n) = some (n : Int) := by
  rw [readNatural?, if_pos ⟨Nat.toDigits_ne_nil, List.all_eq_true.mpr (allDigits_digitsOf n)⟩,
    readDigits_digitsOf]

/-- A number written with a minus or no sign is read. -/
theorem readInteger?_signText_append (n : Int) :
    readInteger? (signText (decide (n < 0)) ++ digitsOf n.natAbs) = some n := by
  by_cases hneg : n < 0
  · rw [decide_eq_true hneg, signText_true_append, readInteger?, readNatural?_digitsOf,
      Option.map_some]
    congr 1
    omega
  · rw [decide_eq_false hneg, signText_false_append]
    have hdigits := allDigits_digitsOf n.natAbs
    have hread := readNatural?_digitsOf n.natAbs
    have hsize : (n.natAbs : Int) = n := by omega
    rw [hsize] at hread
    unfold readInteger?
    split
    case h_1 hcons => exact absurd (hdigits '-' (by simp [hcons])) (by decide)
    case h_2 hcons => exact absurd (hdigits '+' (by simp [hcons])) (by decide)
    case h_3 => exact hread

/-- A text before an `e` and a number that can be read are the parts. -/
theorem scientificParts?_append {before after : List Char} {n : Int} (hletter : 'e' ∉ before)
    (hread : readInt32? after = some n) :
    scientificParts? (before ++ 'e' :: after) = some (before, n) := by
  rw [scientificParts?, splitOnce_append hletter, Option.bind_eq_bind, Option.bind_some]
  dsimp only
  rw [hread]
  rfl

theorem letter_not_mem_mantissa (d : Decimal) : 'e' ∉ mantissa d := by
  obtain ⟨first, fraction, hcons, hmantissa⟩ := exists_mantissa d
  have hdigits := letter_not_mem_of_allDigits (allDigits_digitsOf d.digits)
  rw [hcons, List.mem_cons, not_or] at hdigits
  obtain ⟨hne, hletter⟩ := hdigits
  rw [hmantissa, pointed, List.mem_cons, not_or]
  refine ⟨hne, ?_⟩
  split
  case isTrue => exact List.not_mem_nil
  case isFalse =>
    rw [List.mem_cons, not_or]
    exact ⟨by decide, hletter⟩

section

variable {m : Magnitude} (hne : m.units ≠ 0)

include hne

/-- The scientific text has parts, the mantissa with its sign and the exponent. -/
theorem scientificParts?_scientificText :
    scientificParts? (scientificText negative m) =
      some (signText negative ++ mantissa (shortest m), (shortest m).leadingExponent) := by
  have hletter : 'e' ∉ signText negative ++ mantissa (shortest m) := by
    rw [List.mem_append, not_or]
    exact ⟨letter_not_mem_signText, letter_not_mem_mantissa _⟩
  have hsize := natAbs_shortest_leadingExponent_lt hne
  have hbound : tenPow 3 ≤ twoPow 31 := by decide
  have hread : readInt32? (signText (decide ((shortest m).leadingExponent < 0)) ++
      digitsOf (shortest m).leadingExponent.natAbs) = some (shortest m).leadingExponent := by
    rw [readInt32?, readInteger?_signText_append, Option.bind_eq_bind, Option.bind_some]
    generalize twoPow 31 = bound at hbound
    exact if_pos ⟨by omega, by omega⟩
  rw [scientificText]
  exact scientificParts?_append hletter hread

theorem textFromParts_eq :
    textFromParts negative m = signText negative ++ decimalText (shortest m) := by
  rw [textFromParts, scientificParts?_scientificText hne, Option.getD_some, decimalText]
  dsimp only
  split
  case isTrue => rfl
  case isFalse =>
    rw [List.append_assoc]
    rfl

end

/-! ## The bounds -/

/-- The double nearest to 1e-4. -/
def tenThousandth : Magnitude where
  units := roundUnits unitsPerOne (tenPow 4)
  below := by decide +kernel
  aligned := roundUnits_aligned _ _

def tenQuadrillion : Magnitude where
  units := roundUnits (tenPow 16 * unitsPerOne) 1
  below := by decide +kernel
  aligned := roundUnits_aligned _ _

theorem shortest_tenThousandth : shortest tenThousandth = ⟨1, leastFullExponent⟩ := by
  decide +kernel

theorem shortest_tenQuadrillion : shortest tenQuadrillion = ⟨1, endOfFullExponents⟩ := by
  decide +kernel

theorem less_iff_units {m m' : Magnitude} :
    (Binary64.finite false m).less (.finite false m') ↔ m.units < m'.units := by
  simp [less, signedUnits]

theorem lessOrEqual_iff_units {m m' : Magnitude} :
    (Binary64.finite false m).lessOrEqual (.finite false m') ↔ m.units ≤ m'.units := by
  simp only [lessOrEqual, Bool.or_eq_true, less_iff_units, equals, signedUnits, beq_iff_eq,
    Bool.false_eq_true, if_false]
  omega

section

variable {m power : Magnitude} {place : Int} (hne : m.units ≠ 0)
  (hpower : shortest power = ⟨1, place⟩)

include hpower

theorem ofDecimal_of_shortest : ofDecimal false 1 place = .finite false power := by
  rw [← shortest_toBinary64 power, hpower, Decimal.toBinary64]

include hne

theorem less_power_iff : (Binary64.finite false m).less (ofDecimal false 1 place) ↔
    (shortest m).leadingExponent < place := by
  rw [ofDecimal_of_shortest hpower, less_iff_units, shortest_leadingExponent_lt_iff hne hpower]

theorem power_lessOrEqual_iff : (ofDecimal false 1 place).lessOrEqual (.finite false m) ↔
    place ≤ (shortest m).leadingExponent := by
  rw [ofDecimal_of_shortest hpower, lessOrEqual_iff_units, ← not_lt, ← not_lt,
    shortest_leadingExponent_lt_iff hne hpower]

end

end Numeral

namespace Binary64

open Numeral

/-- At least 1e-4 and less than 1e16, the sign apart. -/
def InFullRange (x : Binary64) : Prop :=
  (ofDecimal false 1 (-4)).lessOrEqual x.abs ∧ x.abs.less (ofDecimal false 1 16)

theorem isIntegral_iff {negative : Bool} {m : Magnitude} :
    (finite negative m).isIntegral ↔ unitsPerOne ∣ m.units :=
  beq_iff_eq.trans (Nat.dvd_iff_mod_eq_zero).symm

section

variable {negative : Bool} {m : Magnitude} (hne : m.units ≠ 0)

include hne

theorem leastFull_lessOrEqual_iff :
    (ofDecimal false 1 (-4)).lessOrEqual (finite negative m).abs ↔
      leastFullExponent ≤ (shortest m).leadingExponent :=
  power_lessOrEqual_iff hne shortest_tenThousandth

theorem less_leastFull_iff : (finite negative m).abs.less (ofDecimal false 1 (-4)) ↔
    (shortest m).leadingExponent < leastFullExponent :=
  less_power_iff hne shortest_tenThousandth

theorem endOfFull_lessOrEqual_iff :
    (ofDecimal false 1 16).lessOrEqual (finite negative m).abs ↔
      endOfFullExponents ≤ (shortest m).leadingExponent :=
  power_lessOrEqual_iff hne shortest_tenQuadrillion

theorem less_endOfFull_iff : (finite negative m).abs.less (ofDecimal false 1 16) ↔
    (shortest m).leadingExponent < endOfFullExponents :=
  less_power_iff hne shortest_tenQuadrillion

theorem inFullRange_iff : (finite negative m).InFullRange ↔
    leastFullExponent ≤ (shortest m).leadingExponent ∧
      (shortest m).leadingExponent < endOfFullExponents :=
  and_congr (leastFull_lessOrEqual_iff hne) (less_endOfFull_iff hne)

/-- A number out of the range is beyond one of its bounds. -/
theorem beyond_of_not_inFullRange (hrange : ¬ (finite negative m).InFullRange) :
    (ofDecimal false 1 16).lessOrEqual (finite negative m).abs ∨
      (finite negative m).abs.less (ofDecimal false 1 (-4)) := by
  rw [inFullRange_iff hne] at hrange
  rw [endOfFull_lessOrEqual_iff hne, less_leastFull_iff hne]
  omega

/-- In full, only whole numbers have no point, and no other number ends in a zero. -/
theorem decimalText_of_inFullRange (hrange : (finite negative m).InFullRange) :
    ((finite negative m).isIntegral →
        IsWhole negative (signText negative ++ decimalText (shortest m))) ∧
      (¬ (finite negative m).isIntegral →
        IsFraction negative (signText negative ++ decimalText (shortest m))) := by
  rw [decimalText, if_pos ((inFullRange_iff hne).mp hrange), isIntegral_iff,
    ← shortest_exponent_nonneg_iff hne, not_le]
  exact ⟨isWhole_positional, fun hexponent ↦
    isFraction_positional hexponent (shortest_digits_mod hne)⟩

theorem decimalText_of_large
    (hlarge : (ofDecimal false 1 16).lessOrEqual (finite negative m).abs) :
    IsScientific negative '+' (shortest m).leadingExponent.natAbs
      (signText negative ++ decimalText (shortest m)) := by
  rw [endOfFull_lessOrEqual_iff hne] at hlarge
  have hnonneg : ¬ (shortest m).leadingExponent < 0 := by
    rw [endOfFullExponents] at hlarge
    omega
  have hform : IsScientific negative _ _ _ := isScientific_exponential (d := shortest m)
  rw [if_neg hnonneg] at hform
  rw [decimalText, if_neg (by omega)]
  exact hform

theorem decimalText_of_small
    (hsmall : (finite negative m).abs.less (ofDecimal false 1 (-4))) :
    IsScientific negative '-' (shortest m).leadingExponent.natAbs
      (signText negative ++ decimalText (shortest m)) := by
  rw [less_leastFull_iff hne] at hsmall
  have hneg : (shortest m).leadingExponent < 0 := by
    rw [leastFullExponent] at hsmall
    omega
  have hform : IsScientific negative _ _ _ := isScientific_exponential (d := shortest m)
  rw [if_pos hneg] at hform
  rw [decimalText, if_neg (by omega)]
  exact hform

theorem letter_not_mem_decimalText_iff :
    'e' ∉ signText negative ++ decimalText (shortest m) ↔ (finite negative m).InFullRange := by
  constructor
  · intro habsent
    by_contra hrange
    rcases beyond_of_not_inFullRange hne hrange with hlarge | hsmall
    · exact habsent (decimalText_of_large hne hlarge).letter_mem
    · exact habsent (decimalText_of_small hne hsmall).letter_mem
  · intro hrange
    obtain ⟨hwhole, hfraction⟩ := decimalText_of_inFullRange hne hrange
    by_cases hintegral : (finite negative m).isIntegral
    · exact (hwhole hintegral).letter_not_mem
    · exact (hfraction hintegral).letter_not_mem

end

/-- The text of a number has no exponent exactly if the number is at least 1e-4 and less than 1e16,
its sign apart.  Then it is a whole number without a point, or a fraction without a zero at its end.
Otherwise it has a mantissa and an exponent of at least two digits, with a plus from 1e16 on and a
minus below 1e-4.  It is also what is put together from the parts of the scientific text, which are
always there. -/
theorem resultText_notation (negative : Bool) {m : Magnitude} (hne : m.units ≠ 0) :
    ∃ text, (finite negative m).resultText = .ok (.ofList text) ∧
      ('e' ∉ text ↔ (finite negative m).InFullRange) ∧
      ((finite negative m).InFullRange →
        ((finite negative m).isIntegral → IsWhole negative text) ∧
        (¬ (finite negative m).isIntegral → IsFraction negative text)) ∧
      (¬ (finite negative m).InFullRange →
        (ofDecimal false 1 16).lessOrEqual (finite negative m).abs ∨
        (finite negative m).abs.less (ofDecimal false 1 (-4))) ∧
      ((ofDecimal false 1 16).lessOrEqual (finite negative m).abs →
        IsScientific negative '+' (shortest m).leadingExponent.natAbs text) ∧
      ((finite negative m).abs.less (ofDecimal false 1 (-4)) →
        IsScientific negative '-' (shortest m).leadingExponent.natAbs text) ∧
      (scientificParts? (scientificText negative m)).isSome ∧ textFromParts negative m = text := by
  have hparts : (scientificParts? (scientificText negative m)).isSome := by
    rw [scientificParts?_scientificText hne]
    rfl
  exact ⟨_, if_neg hne, letter_not_mem_decimalText_iff hne, decimalText_of_inFullRange hne,
    beyond_of_not_inFullRange hne, decimalText_of_large hne, decimalText_of_small hne, hparts,
    textFromParts_eq hne⟩

/-- The greatest double below 1e-4. -/
def beforeTenThousandth : Magnitude where
  units := tenThousandth.units - spacing tenThousandth.units
  below := by decide +kernel
  aligned := by decide +kernel

/-- Its digits do not reach 1e-4, and it is written with an exponent. -/
theorem beforeTenThousandth_notation :
    beforeTenThousandth.units ≠ 0 ∧
      (finite true beforeTenThousandth).resultText = .ok "-9.999999999999999e-05" ∧
      ¬ (finite true beforeTenThousandth).InFullRange ∧
      IsScientific true '-' 5 "-9.999999999999999e-05".toList := by
  have hne : beforeTenThousandth.units ≠ 0 := by decide +kernel
  have hresult : (finite true beforeTenThousandth).resultText = .ok "-9.999999999999999e-05" := by
    decide +kernel
  have hsize : (shortest beforeTenThousandth).leadingExponent.natAbs = 5 := by decide +kernel
  have hless : (finite true beforeTenThousandth).abs.less (ofDecimal false 1 (-4)) := by
    decide +kernel
  obtain ⟨text, htext, hrange, -, -, -, hsmall, -⟩ := resultText_notation true hne
  have hchars : text = "-9.999999999999999e-05".toList := by
    have hstring := Except.ok.inj (htext.symm.trans hresult)
    rw [← hstring, String.toList_ofList]
  rw [hsize, hchars] at hsmall
  refine ⟨hne, hresult, fun hfull ↦ hrange.mpr hfull ?_, hsmall hless⟩
  rw [hchars]
  decide

end Binary64

end Reckoner
