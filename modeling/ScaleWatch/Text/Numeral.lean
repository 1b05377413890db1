/-!
# Decimal numerals

Every number of the program's texts is an unsigned decimal: ASCII digits, as many leading zeros as
the writer likes, and one optional plus sign in front. `Numeral.digits` writes the shortest
numeral of a number and `Numeral.read?` reads any of them, up to a limit.
-/

namespace ScaleWatch.Text.Numeral

/-- The shortest decimal numeral of `n`. -/
def digits (n : Nat) : List Char :=
  Nat.toDigits 10 n

/-- The number that a text of ASCII digits spells; it needs at least one digit. -/
def value? (t : List Char) : Option Nat :=
  if t ≠ [] ∧ t.all Char.isDigit then some (Nat.ofDigitChars 10 t 0) else none

/-- A text without the plus sign that may stand in front of it. -/
def dropPlus : List Char → List Char
  | '+' :: t => t
  | t => t

/-- The number that an unsigned numeral spells, if it does not exceed `limit`. -/
def read? (limit : Nat) (t : List Char) : Option Nat :=
  (value? (dropPlus t)).filter (· ≤ limit)

theorem value?_digits (n : Nat) : value? (digits n) = some n := by
  have ne : digits n ≠ [] := Nat.toDigits_ne_nil
  have all : (digits n).all Char.isDigit := by
    simp only [List.all_eq_true]
    exact fun c hc => Nat.isDigit_of_mem_toDigits (by decide) (by decide) hc
  simp only [value?, ne, all, ne_eq, not_false_eq_true, and_self, if_true]
  exact congrArg some (Nat.ofDigitChars_toDigits (by decide) (by decide))

end ScaleWatch.Text.Numeral
