/-!
# Decimal Digits

Whole numbers as lists of decimal digit characters, and back.
-/

namespace Reckoner.Numeral

/-- The digits of a number, without leading zeros; zero is written `0`. -/
def digitsOf (n : Nat) : List Char := Nat.toDigits 10 n

/-- The number that the digits write; no digits write zero. -/
def readDigits (digits : List Char) : Nat := Nat.ofDigitChars 10 digits 0

/-- Digits written and read are the same number. -/
theorem readDigits_digitsOf (n : Nat) : readDigits (digitsOf n) = n :=
  Nat.ofDigitChars_toDigits (by decide) (by decide)

theorem isDigit_of_mem_digitsOf {n : Nat} {c : Char} (h : c ∈ digitsOf n) : c.isDigit :=
  Nat.isDigit_of_mem_toDigits (by decide) (by decide) h

end Reckoner.Numeral
