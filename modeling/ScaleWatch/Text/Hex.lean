/-!
# Hexadecimal digits

Escapes of several formats spell a code point or an octet in hexadecimal digits of either case.
-/

namespace ScaleWatch.Text.Hex

def digit? (c : Char) : Option Nat :=
  if '0' ≤ c ∧ c ≤ '9' then some (c.toNat - 0x30)
  else if 'a' ≤ c ∧ c ≤ 'f' then some (c.toNat - 0x61 + 10)
  else if 'A' ≤ c ∧ c ≤ 'F' then some (c.toNat - 0x41 + 10)
  else none

/-- The number that hexadecimal digits spell, the first one the most significant. -/
def value? (t : List Char) : Option Nat :=
  t.foldlM (fun n c => (digit? c).map (16 * n + ·)) 0

/-- The upper-case numeral of `n`, filled with zeros to four digits. -/
def upper4 (n : Nat) : List Char :=
  let t := (Nat.toDigits 16 n).map Char.toUpper
  List.replicate (4 - t.length) '0' ++ t

/-- The lower-case numeral of `n`, filled with zeros to four digits. -/
def lower4 (n : Nat) : List Char :=
  let t := Nat.toDigits 16 n
  List.replicate (4 - t.length) '0' ++ t

end ScaleWatch.Text.Hex
