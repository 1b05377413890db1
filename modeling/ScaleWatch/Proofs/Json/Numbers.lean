import Mathlib.Data.Option.Basic
import ScaleWatch.Json.Literal
import ScaleWatch.Proofs.Text.Numerals

/-!
# Numbers

A number is written as an optional minus sign, digits without a superfluous zero in front, and
perhaps a fraction and an exponent (`Number`).  Numbers are read, in front of anything that goes on
with none of them (`Number.read`), and nothing else is (`exists_number_of_read?`).
-/

namespace ScaleWatch.Json

open Text

/-! ### Numbers as they are written -/

structure Digits where
  chars : List Char
  ne_nil : chars ≠ []
  isDigit : ∀ c ∈ chars, c.isDigit = true

structure Exponent where
  letter : Char
  isLetter : letter = 'e' ∨ letter = 'E'
  /-- Whether the sign is a minus sign, if there is a sign. -/
  minus? : Option Bool
  digits : Digits

structure Number where
  minus : Bool
  whole : Digits
  shortest : whole.chars.head? = some '0' → whole.chars.length = 1
  fraction? : Option Digits
  exponent? : Option Exponent

namespace Exponent

def sign : Option Bool → List Char
  | none => []
  | some false => ['+']
  | some true => ['-']

def chars (e : Exponent) : List Char :=
  e.letter :: (sign e.minus? ++ e.digits.chars)

def value (e : Exponent) : Int :=
  if e.minus? = some true then -(Nat.ofDigitChars 10 e.digits.chars 0 : Int)
  else Nat.ofDigitChars 10 e.digits.chars 0

end Exponent

namespace Number

def minusChars (minus : Bool) : List Char :=
  if minus then ['-'] else []

def fractionChars (f : Option Digits) : List Char :=
  f.elim [] ('.' :: ·.chars)

def exponentChars (e : Option Exponent) : List Char :=
  e.elim [] Exponent.chars

def chars (n : Number) : List Char :=
  minusChars n.minus ++
    (n.whole.chars ++ (fractionChars n.fraction? ++ exponentChars n.exponent?))

/-- What the number says. -/
def literal (n : Number) : Literal where
  natural? :=
    if n.minus || n.fraction?.isSome || n.exponent?.isSome then none
    else some (Nat.ofDigitChars 10 n.whole.chars 0)
  finite := (Scaled.ofDigits n.whole.chars ((n.fraction?.map Digits.chars).getD [])
    ((n.exponent?.map Exponent.value).getD 0)).isFinite

end Number

/-! ### Where a number ends -/

/-- A numeral may end in front of the text. -/
def EndsNumeral (t : List Char) : Prop :=
  ∀ c ∈ t.head?, c.isDigit = false ∧ c ≠ '.' ∧ c ≠ 'e' ∧ c ≠ 'E'

section Ends

variable {rest : List Char}

theorem Digits.exists_cons (d : Digits) :
    ∃ c more, d.chars = c :: more ∧ c.isDigit = true := by
  obtain ⟨_ | ⟨c, more⟩, ne_nil, isDigit⟩ := d
  · exact absurd rfl ne_nil
  · exact ⟨c, more, rfl, isDigit c List.mem_cons_self⟩

theorem Digits.takeWhile (d : Digits) (ends : ∀ c ∈ rest.head?, c.isDigit = false) :
    (d.chars ++ rest).takeWhile Char.isDigit = d.chars := by
  rw [List.takeWhile_append_of_pos d.isDigit]
  rcases rest with _ | ⟨c, rest⟩
  · exact List.append_nil _
  · rw [List.takeWhile_cons_of_neg (by simp [ends c rfl]), List.append_nil]

theorem Digits.dropWhile (d : Digits) (ends : ∀ c ∈ rest.head?, c.isDigit = false) :
    (d.chars ++ rest).dropWhile Char.isDigit = rest := by
  rw [List.dropWhile_append_of_pos d.isDigit]
  rcases rest with _ | ⟨c, rest⟩
  · rfl
  · exact List.dropWhile_cons_of_neg (by simp [ends c rfl])

theorem EndsNumeral.digits (ends : EndsNumeral rest) : ∀ c ∈ rest.head?, c.isDigit = false :=
  fun c here => (ends c here).1

theorem head?_exponentChars (e : Option Exponent) (ends : EndsNumeral rest) :
    ∀ c ∈ (Number.exponentChars e ++ rest).head?, c.isDigit = false ∧ c ≠ '.' := by
  cases e with
  | none => exact fun c here => ⟨(ends c here).1, (ends c here).2.1⟩
  | some e =>
    rintro c here
    cases here
    rcases e.isLetter with letter | letter <;> rw [letter] <;> decide

theorem head?_fractionChars (f : Option Digits)
    (ends : ∀ c ∈ rest.head?, c.isDigit = false ∧ c ≠ '.') :
    ∀ c ∈ (Number.fractionChars f ++ rest).head?, c.isDigit = false := by
  cases f with
  | none => exact fun c here => (ends c here).1
  | some f =>
    rintro c here
    cases here
    rfl

end Ends

/-! ### Reading -/

theorem readMinus_eq (b : Bool) {t : List Char} (digit : ∀ c ∈ t.head?, c.isDigit = true) :
    Literal.readMinus (Number.minusChars b ++ t) = (b, t) := by
  cases b with
  | true => rfl
  | false =>
    show Literal.readMinus t = _
    unfold Literal.readMinus
    split
    · exact absurd (digit '-' rfl) (by decide)
    · rfl

theorem minusChars_of_readMinus {t rest : List Char} {b : Bool}
    (read : Literal.readMinus t = (b, rest)) : t = Number.minusChars b ++ rest := by
  unfold Literal.readMinus at read
  split at read <;> cases read <;> rfl

/-- Digits at the beginning of a text. -/
theorem exists_digits {t : List Char} (some_digit : t.takeWhile Char.isDigit ≠ []) :
    ∃ d : Digits, d.chars = t.takeWhile Char.isDigit ∧ t = d.chars ++ t.dropWhile Char.isDigit :=
  ⟨⟨_, some_digit, fun _ inside => List.mem_takeWhile_imp inside⟩, rfl,
    List.takeWhile_append_dropWhile.symm⟩

theorem readFraction_eq (f : Option Digits) {rest : List Char}
    (ends : ∀ c ∈ rest.head?, c.isDigit = false ∧ c ≠ '.') :
    Literal.readFraction (Number.fractionChars f ++ rest) =
      some (f.map Digits.chars, rest) := by
  cases f with
  | none =>
    show Literal.readFraction rest = _
    unfold Literal.readFraction
    split
    · exact absurd rfl (ends '.' rfl).2
    · rfl
  | some d =>
    have ended : ∀ c ∈ rest.head?, c.isDigit = false := fun c here => (ends c here).1
    show Literal.readFraction ('.' :: (d.chars ++ rest)) = _
    simp only [Literal.readFraction, d.takeWhile ended, d.dropWhile ended, d.ne_nil, if_false,
      Option.map_some]

theorem fractionChars_of_readFraction {t rest : List Char} {said : Option (List Char)}
    (read : Literal.readFraction t = some (said, rest)) :
    ∃ f : Option Digits, said = f.map Digits.chars ∧ t = Number.fractionChars f ++ rest := by
  unfold Literal.readFraction at read
  split at read
  · next t =>
    simp only at read
    split at read
    · cases read
    · next some_digit =>
      obtain ⟨d, digits, split⟩ := exists_digits some_digit
      cases read
      exact ⟨some d, congrArg some digits.symm, congrArg ('.' :: ·) split⟩
  · cases read
    exact ⟨none, rfl, rfl⟩

/-! ### Exponents -/

/-- The sign of an exponent, and what follows it. -/
def readSign : List Char → Bool × List Char
  | '+' :: t => (false, t)
  | t => Literal.readMinus t

theorem readExponent_cons {c : Char} (letter : c = 'e' ∨ c = 'E') (t : List Char) :
    Literal.readExponent (c :: t) =
      let (negative, t) := readSign t
      let digits := t.takeWhile Char.isDigit
      if digits = [] then none
      else
        let n : Int := Nat.ofDigitChars 10 digits 0
        some (some (if negative then -n else n), t.dropWhile Char.isDigit) :=
  if_pos letter

theorem readSign_eq (m : Option Bool) {t : List Char} (digit : ∀ c ∈ t.head?, c.isDigit = true) :
    readSign (Exponent.sign m ++ t) = (m.getD false, t) := by
  match m with
  | some false => rfl
  | some true => rfl
  | none =>
    show readSign t = _
    unfold readSign
    split
    · exact absurd (digit '+' rfl) (by decide)
    · exact readMinus_eq false digit

theorem sign_of_readSign {t rest : List Char} {negative : Bool}
    (read : readSign t = (negative, rest)) :
    ∃ m : Option Bool, m.getD false = negative ∧ t = Exponent.sign m ++ rest := by
  unfold readSign at read
  split at read
  · cases read
    exact ⟨some false, rfl, rfl⟩
  · rw [minusChars_of_readMinus read]
    cases negative with
    | true => exact ⟨some true, rfl, rfl⟩
    | false => exact ⟨none, rfl, rfl⟩

theorem Exponent.value_eq (e : Exponent) : e.value =
    if e.minus?.getD false then -(Nat.ofDigitChars 10 e.digits.chars 0 : Int)
    else Nat.ofDigitChars 10 e.digits.chars 0 := by
  unfold value
  rcases e.minus? with _ | _ | _ <;> rfl

theorem readExponent_eq (e : Option Exponent) {rest : List Char} (ends : EndsNumeral rest) :
    Literal.readExponent (Number.exponentChars e ++ rest) =
      some (e.map Exponent.value, rest) := by
  cases e with
  | none =>
    show Literal.readExponent rest = _
    rcases rest with _ | ⟨c, rest⟩
    · rfl
    · exact if_neg (not_or.2 (ends c rfl).2.2)
  | some e =>
    obtain ⟨c, more, written, digit⟩ := e.digits.exists_cons
    have first : ∀ c ∈ (e.digits.chars ++ rest).head?, c.isDigit = true := by
      rw [written]
      rintro c' here
      cases here
      exact digit
    have joined : Number.exponentChars (some e) ++ rest =
        e.letter :: (Exponent.sign e.minus? ++ (e.digits.chars ++ rest)) := by
      simp [Number.exponentChars, Exponent.chars]
    rw [joined, readExponent_cons e.isLetter, readSign_eq _ first]
    simp only [e.digits.takeWhile ends.digits, e.digits.dropWhile ends.digits, e.digits.ne_nil,
      if_false, Option.map_some, e.value_eq]

theorem exponentChars_of_readExponent {t rest : List Char} {said : Option Int}
    (read : Literal.readExponent t = some (said, rest)) :
    ∃ e : Option Exponent, said = e.map Exponent.value ∧
      t = Number.exponentChars e ++ rest := by
  rcases t with _ | ⟨c, t⟩
  · cases read
    exact ⟨none, rfl, rfl⟩
  by_cases letter : c = 'e' ∨ c = 'E'
  · rw [readExponent_cons letter] at read
    rcases sign : readSign t with ⟨negative, t'⟩
    rw [sign] at read
    simp only at read
    split at read
    · cases read
    · next some_digit =>
      obtain ⟨d, digits, split⟩ := exists_digits some_digit
      obtain ⟨m, rfl, rfl⟩ := sign_of_readSign sign
      cases read
      refine ⟨some ⟨c, letter, m, d⟩, ?_, ?_⟩
      · rw [Option.map_some, Exponent.value_eq, digits]
      · rw [Number.exponentChars, Option.elim_some, Exponent.chars, List.cons_append,
          List.append_assoc, ← split]
  · have none_read : Literal.readExponent (c :: t) = some (none, c :: t) := if_neg letter
    rw [none_read] at read
    cases read
    exact ⟨none, rfl, rfl⟩

/-! ### Numbers -/

/-- A number is read in front of what does not go on with it. -/
theorem Number.read (n : Number) {rest : List Char} (ends : EndsNumeral rest) :
    Literal.read? (n.chars ++ rest) = some (n.literal, rest) := by
  obtain ⟨c, more, written, digit⟩ := n.whole.exists_cons
  have behind := head?_exponentChars n.exponent? ends
  have first : ∀ c ∈ (n.whole.chars ++ (fractionChars n.fraction? ++
      (exponentChars n.exponent? ++ rest))).head?, c.isDigit = true := by
    rw [written]
    rintro c' here
    cases here
    exact digit
  have ended := head?_fractionChars n.fraction? behind
  have joined : n.chars ++ rest = minusChars n.minus ++ (n.whole.chars ++
      (fractionChars n.fraction? ++ (exponentChars n.exponent? ++ rest))) := by
    simp [chars]
  rw [joined, Literal.read?, readMinus_eq _ first]
  simp only [n.whole.takeWhile ended, n.whole.dropWhile ended, Option.bind_eq_bind,
    (Option.guard_eq_some' ()).2 n.whole.ne_nil, (Option.guard_eq_some' ()).2 n.shortest,
    Option.bind_some, readFraction_eq _ behind, readExponent_eq _ ends, Option.isSome_map]
  rfl

/-- What is read is a number as it may be written. -/
theorem exists_number_of_read? {t rest : List Char} {l : Literal}
    (read : Literal.read? t = some (l, rest)) :
    ∃ n : Number, t = n.chars ++ rest ∧ n.literal = l := by
  rw [Literal.read?] at read
  rcases sign : Literal.readMinus t with ⟨minus, behind⟩
  rw [sign] at read
  simp only [Option.bind_eq_bind, Option.bind_eq_some_iff, Option.guard_eq_some', Prod.exists,
    exists_const] at read
  obtain ⟨some_digit, shortest, f, t₁, fraction, e, t₂, exponent, said⟩ := read
  obtain ⟨d, digits, split⟩ := exists_digits some_digit
  obtain ⟨f, rfl, behind_whole⟩ := fractionChars_of_readFraction fraction
  obtain ⟨e, rfl, behind_fraction⟩ := exponentChars_of_readExponent exponent
  rw [← digits] at shortest said
  cases said
  refine ⟨⟨minus, d, shortest, f, e⟩, ?_, ?_⟩
  · rw [minusChars_of_readMinus sign, split, behind_whole, behind_fraction]
    simp [Number.chars]
  · simp only [Number.literal, Option.isSome_map]

end ScaleWatch.Json
