/-!
# Magnitudes of decimal literals

A decimal literal with an exponent may name a number that no double-precision number comes near.
Formats refuse such literals, so the question is decided here exactly and without computing
powers of absurd size: the number of digits before the point settles all cases but one. A format
that scales what it reads in double precision needs to know what the parts become there
(`roundToDouble`).
-/

namespace ScaleWatch.Text.Magnitude

/-- The least number that rounds to infinity in double precision: half a unit above the largest
finite one. -/
def doubleLimit : Nat :=
  Nat.pow 2 1024 - Nat.pow 2 970

/-- The digits in front of the point of `doubleLimit`. -/
def doubleDigits : Int := 309

/-- Whether the digits, times ten to the power `exponent`, are beyond double precision. -/
def exceedsDouble (digits : List Char) (exponent : Int) : Bool :=
  let significant := digits.dropWhile (· = '0')
  let n := Nat.ofDigitChars 10 significant 0
  let size := significant.length + exponent
  if significant = [] ∨ size < doubleDigits then false
  else if doubleDigits < size then true
  else if 0 ≤ exponent then doubleLimit ≤ n * Nat.pow 10 exponent.toNat
  else doubleLimit * Nat.pow 10 (-exponent).toNat ≤ n

/-- The number of significant bits in double precision. -/
def doubleBits : Nat := 53

/-- The nearest number that has no more significant bits than double precision has. Of two that are
equally near it is the one whose last bit is zero. -/
def roundToDouble (n : Nat) : Nat :=
  let unit := Nat.pow 2 (n.log2 + 1 - doubleBits)
  let below := n / unit
  let rest := n % unit
  if unit < 2 * rest ∨ (unit = 2 * rest ∧ below % 2 = 1) then (below + 1) * unit
  else below * unit

end ScaleWatch.Text.Magnitude
