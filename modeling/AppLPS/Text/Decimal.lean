/-
Module: AppLPS.Text.Decimal
Purpose: Decimal numerals padded with zeros to a minimal width.
Trusted boundary: none
Main exports: Decimal.padded, Decimal.padded_injective, Decimal.length_padded,
  Decimal.not_mem_padded
-/
import Mathlib.Algebra.Group.Nat.Defs
import Mathlib.Data.List.Basic

namespace Decimal

/-- The decimal numeral of `number`, padded on the left with zeros to at least
`width` characters. -/
def padded (width number : Nat) : List Char :=
  List.replicate (width - (Nat.toDigits 10 number).length) '0' ++
    Nat.toDigits 10 number

/-- Reading a padded numeral gives its number back. -/
theorem ofDigitChars_padded (width number : Nat) :
    Nat.ofDigitChars 10 (padded width number) 0 = number := by
  rw [padded, Nat.ofDigitChars_append, Nat.ofDigitChars_replicate_zero]
  simp

/-- Distinct numbers have distinct numerals, whatever the width. -/
theorem padded_injective (width : Nat) :
    Function.Injective (padded width) := by
  intro first second same
  rw [← ofDigitChars_padded width first, same, ofDigitChars_padded]

/-- A number that fits the width fills it exactly. -/
theorem length_padded {width number : Nat} (positive : 0 < width)
    (fits : number < 10 ^ width) : (padded width number).length = width := by
  have short : (Nat.toDigits 10 number).length ≤ width :=
    (Nat.length_toDigits_le_iff (by decide) positive).mpr fits
  rw [padded, List.length_append, List.length_replicate]
  omega

/-- A numeral has only digits. -/
theorem not_mem_padded {char : Char} (notDigit : char.isDigit = false)
    {width number : Nat} : char ∉ padded width number := by
  intro member
  rcases List.mem_append.mp member with zero | digit
  · rw [List.eq_of_mem_replicate zero] at notDigit
    cases notDigit
  · rw [Nat.isDigit_of_mem_toDigits (by decide) (by decide) digit] at notDigit
    cases notDigit

example : padded 4 2021 = ['2', '0', '2', '1'] := by decide

example : padded 2 7 = ['0', '7'] := by decide

end Decimal
