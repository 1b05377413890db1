import ScaleWatch.Text.Magnitude

/-!
# Numbers in JSON texts

A number is written as an optional minus sign, digits without a superfluous zero in front, and
perhaps a fraction and an exponent. Only a natural number that is written in digits alone is ever
wanted. Any other is judged by its size, since one that double precision cannot hold rules its text
out. The size is that of a `Scaled` number: a word of 64 bits takes in the digits from the left,
and a power of ten stands for those it has no room for. Both are rounded before they are
multiplied, so close to the limit the rounding decides.
-/

namespace ScaleWatch.Json

open Text

/-! ### Size -/

/-- A word of 64 bits times a power of ten. -/
structure Scaled where
  significand : Nat
  exponent : Int

namespace Scaled

/-- Take digits into a word from the left while there is room for them, and give back the others. -/
def absorb : List Char → Nat → Nat × List Char
  | [], n => (n, [])
  | c :: rest, n =>
    let more := 10 * n + (c.toNat - '0'.toNat)
    if more < UInt64.size then absorb rest more else (n, c :: rest)

/-- The number that is written with these digits in front of the point and behind it. The first
digit behind the point for which there is no room ends the reading. -/
def ofDigits (whole fraction : List Char) (exponent : Int) : Scaled :=
  let (significand, dropped) := absorb whole 0
  let (significand, ignored) := absorb fraction significand
  ⟨significand, dropped.length - (fraction.length - ignored.length) + exponent⟩

/-- The largest power of ten that double precision holds. -/
def maxExponent : Int := 308

/-- Whether the product of both parts, each in double precision, is finite there. -/
def isFinite (s : Scaled) : Bool :=
  if s.significand = 0 ∨ s.exponent ≤ 0 then true
  else
    s.exponent ≤ maxExponent &&
      Magnitude.roundToDouble s.significand *
        Magnitude.roundToDouble (Nat.pow 10 s.exponent.toNat) < Magnitude.doubleLimit

end Scaled

/-! ### Reading -/

/-- A number as it is written. -/
structure Literal where
  /-- Its value, if it is written in digits alone. -/
  natural? : Option Nat
  /-- Whether double precision can hold it. -/
  finite : Bool
  deriving DecidableEq

namespace Literal

/-- A sign in front of a number or of an exponent, and what follows it. -/
def readMinus : List Char → Bool × List Char
  | '-' :: t => (true, t)
  | t => (false, t)

/-- The digits behind a point, if there is a point; one that no digit follows is refused. -/
def readFraction : List Char → Option (Option (List Char) × List Char)
  | '.' :: t =>
    let digits := t.takeWhile Char.isDigit
    if digits = [] then none else some (some digits, t.dropWhile Char.isDigit)
  | t => some (none, t)

/-- The exponent, if there is one. -/
def readExponent : List Char → Option (Option Int × List Char)
  | e :: t =>
    if e = 'e' ∨ e = 'E' then
      let (negative, t) :=
        match t with
        | '+' :: t => (false, t)
        | t => readMinus t
      let digits := t.takeWhile Char.isDigit
      if digits = [] then none
      else
        let n : Int := Nat.ofDigitChars 10 digits 0
        some (some (if negative then -n else n), t.dropWhile Char.isDigit)
    else some (none, e :: t)
  | [] => some (none, [])

/-- Read a number, and give back what follows it. -/
def read? (t : List Char) : Option (Literal × List Char) := do
  let (negative, t) := readMinus t
  let whole := t.takeWhile Char.isDigit
  guard (whole ≠ [])
  guard (whole.head? = some '0' → whole.length = 1)
  let (fraction, t) ← readFraction (t.dropWhile Char.isDigit)
  let (exponent, t) ← readExponent t
  let natural? :=
    if negative || fraction.isSome || exponent.isSome then none
    else some (Nat.ofDigitChars 10 whole 0)
  return (⟨natural?, (Scaled.ofDigits whole (fraction.getD []) (exponent.getD 0)).isFinite⟩, t)

end Literal

end ScaleWatch.Json
