import Mathlib.Data.List.Basic
import Mathlib.Data.List.Induction
import Mathlib.Data.List.TakeWhile
import ScaleWatch.Text.Blank
import ScaleWatch.Text.Numeral

/-!
# Numerals, and the blanks around a text

The numeral that is written for a number is read as that number wherever numerals are read: it has
digits only, no superfluous zero in front and no sign.  Other numerals are digits, perhaps behind a
plus sign (`Written`); those are read and no others, and two of them name the same number exactly if
they are alike but for the plus sign and for zeros in front (`Written.value_eq_iff`).  Texts that
begin and end with other characters than blanks are trimmed to themselves, and blanks around a text
make no difference.
-/

namespace ScaleWatch.Text

/-! ### Digits -/

theorem toNat_of_isDigit {c : Char} (h : c.isDigit = true) : 48 ≤ c.toNat ∧ c.toNat ≤ 57 := by
  simp only [Char.isDigit, ge_iff_le, Bool.and_eq_true, decide_eq_true_eq] at h
  exact ⟨UInt32.le_iff_toNat_le.1 h.1, UInt32.le_iff_toNat_le.1 h.2⟩

theorem ne_of_isDigit {c c' : Char} (digit : c.isDigit = true) (other : c'.isDigit = false) :
    c ≠ c' := by
  rintro rfl
  rw [other] at digit
  cases digit

theorem not_isBlank_of_isDigit {c : Char} (h : c.isDigit = true) : isBlank c = false := by
  have := toNat_of_isDigit h
  simp only [isBlank, blankRanges, List.any_cons, List.any_nil, Bool.or_false,
    Bool.or_eq_false_iff, Bool.and_eq_false_iff, decide_eq_false_iff_not]
  omega

namespace Numeral

theorem isDigit_of_mem_digits {n : Nat} {c : Char} (h : c ∈ digits n) : c.isDigit = true :=
  Nat.isDigit_of_mem_toDigits (by decide) (by decide) h

theorem digits_eq_cons (n : Nat) : ∃ c rest, digits n = c :: rest ∧ c.isDigit = true := by
  rcases h : digits n with _ | ⟨c, rest⟩
  · exact absurd h Nat.toDigits_ne_nil
  · exact ⟨c, rest, rfl, isDigit_of_mem_digits (h ▸ List.mem_cons_self)⟩

theorem head?_digits_append (n : Nat) (rest : List Char) :
    (digits n ++ rest).head? = (digits n).head? := by
  obtain ⟨c, more, written, -⟩ := digits_eq_cons n
  rw [written]
  rfl

/-- No numeral but that of zero begins with a zero. -/
theorem head?_digits_of_pos {n : Nat} (pos : 0 < n) : (digits n).head? ≠ some '0' := by
  induction n using Nat.strongRecOn with
  | _ n ih =>
    by_cases small : n < 10
    · rw [digits, Nat.toDigits_of_lt_base small]
      intro zero
      exact absurd (Nat.digitChar_eq_zero.1 (Option.some.inj zero)) (Nat.ne_of_gt pos)
    · rw [digits, Nat.toDigits_of_base_le (by decide) (by omega), ← digits, head?_digits_append]
      exact ih (n / 10) (by omega) (by omega)

theorem length_digits_of_head?_zero {n : Nat} (zero : (digits n).head? = some '0') :
    (digits n).length = 1 := by
  rcases Nat.eq_zero_or_pos n with rfl | pos
  · rfl
  · exact absurd zero (head?_digits_of_pos pos)

theorem eq_nil_of_digits_zero {n : Nat} {more : List Char} (h : digits n = '0' :: more) :
    more = [] := by
  have alone := length_digits_of_head?_zero (n := n) (by rw [h]; rfl)
  rw [h, List.length_cons] at alone
  exact List.length_eq_zero_iff.1 (Nat.succ.inj alone)

theorem dropPlus_digits (n : Nat) : dropPlus (digits n) = digits n := by
  obtain ⟨c, rest, written, digit⟩ := digits_eq_cons n
  rw [written]
  unfold dropPlus
  split
  · next plus =>
    cases plus
    cases digit
  · rfl

theorem read?_digits {limit n : Nat} (inside : n ≤ limit) : read? limit (digits n) = some n := by
  rw [read?, dropPlus_digits, value?_digits, Option.filter_some, if_pos (decide_eq_true inside)]

/-! ### Numerals as they are written -/

theorem value?_eq_some_iff {t : List Char} {n : Nat} :
    value? t = some n ↔
      (t ≠ [] ∧ ∀ c ∈ t, c.isDigit = true) ∧ Nat.ofDigitChars 10 t 0 = n := by
  rw [value?, Option.ite_none_right_eq_some, List.all_eq_true, Option.some_inj]

theorem digitChar_of_isDigit {c : Char} (h : c.isDigit = true) :
    Nat.digitChar (c.toNat - '0'.toNat) = c := by
  have range := toNat_of_isDigit h
  have zero : '0'.toNat = 48 := rfl
  rw [← Char.toNat_inj, Nat.toNat_digitChar_of_lt_ten (by omega)]
  omega

/-- Digits without a superfluous zero in front are the numeral of the number they spell. -/
theorem digits_ofDigitChars {t : List Char} (ne : t ≠ []) (all : ∀ c ∈ t, c.isDigit = true)
    (first : t.head? ≠ some '0') : digits (Nat.ofDigitChars 10 t 0) = t := by
  induction t using List.reverseRecOn with
  | nil => exact absurd rfl ne
  | append_singleton t c ih =>
    have digit := all c (by simp)
    have range := toNat_of_isDigit digit
    have zero : '0'.toNat = 48 := rfl
    rw [Nat.ofDigitChars_append, Nat.ofDigitChars_cons, Nat.ofDigitChars_nil, digits]
    by_cases alone : t = []
    · rw [alone, Nat.ofDigitChars_nil, Nat.mul_zero, Nat.zero_add,
        Nat.toDigits_of_lt_base (by omega), digitChar_of_isDigit digit]
      rfl
    · rw [List.head?_append_of_ne_nil t alone] at first
      have before := ih alone (fun c inside => all c (by simp [inside])) first
      have positive : Nat.ofDigitChars 10 t 0 ≠ 0 := by
        intro nothing
        rw [nothing] at before
        exact first (before ▸ rfl)
      rw [Nat.toDigits_of_base_le (by decide) (by omega), ← digits,
        show (10 * Nat.ofDigitChars 10 t 0 + (c.toNat - '0'.toNat)) / 10 =
          Nat.ofDigitChars 10 t 0 by omega,
        show (10 * Nat.ofDigitChars 10 t 0 + (c.toNat - '0'.toNat)) % 10 =
          c.toNat - '0'.toNat by omega, before, digitChar_of_isDigit digit]

/-- A numeral as it may be written. -/
structure Written where
  plus : Bool
  digits : List Char
  ne_nil : digits ≠ []
  isDigit : ∀ c ∈ digits, c.isDigit = true

namespace Written

def chars (w : Written) : List Char :=
  (if w.plus then ['+'] else []) ++ w.digits

def value (w : Written) : Nat :=
  Nat.ofDigitChars 10 w.digits 0

/-- The digits without the zeros in front of them. -/
def significant (w : Written) : List Char :=
  w.digits.dropWhile (· = '0')

theorem dropPlus_chars (w : Written) : dropPlus w.chars = w.digits := by
  unfold chars
  cases w.plus with
  | true => rfl
  | false =>
    show dropPlus w.digits = w.digits
    unfold dropPlus
    split
    · next written => exact absurd (w.isDigit '+' (by simp [written])) (by decide)
    · rfl

theorem value_eq_significant (w : Written) : w.value = Nat.ofDigitChars 10 w.significant 0 := by
  unfold value significant
  generalize w.digits = t
  induction t with
  | nil => rfl
  | cons c t ih =>
    rw [List.dropWhile_cons]
    split
    · next zero =>
      rw [of_decide_eq_true zero, Nat.ofDigitChars_cons]
      exact ih
    · rfl

theorem significant_eq (w : Written) :
    w.significant = if w.value = 0 then [] else Numeral.digits w.value := by
  have all : ∀ c ∈ w.significant, c.isDigit = true := fun c inside =>
    w.isDigit c ((List.dropWhile_sublist _).mem inside)
  have first : w.significant.head? ≠ some '0' := by
    have none_more := List.head?_dropWhile_not (· = '0') w.digits
    intro zero
    change (w.digits.dropWhile (· = '0')).head? = some '0' at zero
    rw [zero] at none_more
    cases none_more
  rw [value_eq_significant]
  by_cases empty : w.significant = []
  · rw [empty]
    rfl
  · have shortest := digits_ofDigitChars empty all first
    rw [shortest, if_neg]
    intro nothing
    rw [nothing] at shortest
    exact first (shortest ▸ rfl)

/-- Two numerals name one number if they differ in the plus sign and in zeros in front only. -/
theorem value_eq_iff {w w' : Written} : w.value = w'.value ↔ w.significant = w'.significant := by
  constructor
  · intro same
    rw [significant_eq, significant_eq, same]
  · intro same
    rw [value_eq_significant, value_eq_significant, same]

end Written

/-- What is written up to the limit is read, and nothing else. -/
theorem read?_eq_some_iff {limit n : Nat} {t : List Char} :
    read? limit t = some n ↔ ∃ w : Written, w.chars = t ∧ w.value = n ∧ n ≤ limit := by
  rw [read?, Option.filter_eq_some_iff, value?_eq_some_iff, decide_eq_true_eq]
  constructor
  · rintro ⟨⟨⟨ne, all⟩, value⟩, inside⟩
    by_cases plus : ∃ rest, t = '+' :: rest
    · obtain ⟨rest, rfl⟩ := plus
      exact ⟨⟨true, rest, ne, all⟩, rfl, value, inside⟩
    · have same : dropPlus t = t := by
        unfold dropPlus
        split
        · exact absurd ⟨_, rfl⟩ plus
        · rfl
      rw [same] at ne all value
      exact ⟨⟨false, t, ne, all⟩, rfl, value, inside⟩
  · rintro ⟨w, rfl, rfl, inside⟩
    rw [w.dropPlus_chars]
    exact ⟨⟨⟨w.ne_nil, w.isDigit⟩, rfl⟩, inside⟩

end Numeral

/-! ### Trimming -/

theorem trimEnd_concat {c : Char} (blank : isBlank c = true) (t : List Char) :
    trimEnd (t ++ [c]) = trimEnd t := by
  rw [trimEnd, List.reverse_concat, List.dropWhile_cons_of_pos blank, trimEnd]

theorem trim_concat {c : Char} (blank : isBlank c = true) (t : List Char) :
    trim (t ++ [c]) = trim t := by
  rw [trim, trimStart, List.dropWhile_append]
  split
  · next all =>
    rw [List.dropWhile_cons_of_pos blank, trim, trimStart, List.isEmpty_iff.1 all]
    rfl
  · exact trimEnd_concat blank _

theorem trim_of_ends {t : List Char} (first : ∀ c ∈ t.head?, isBlank c = false)
    (last : ∀ c ∈ t.getLast?, isBlank c = false) : trim t = t := by
  have start : trimStart t = t := by
    cases t with
    | nil => rfl
    | cons c rest => exact List.dropWhile_cons_of_neg (by simp [first c rfl])
  rw [trim, start]
  rcases List.eq_nil_or_concat t with rfl | ⟨rest, c, rfl⟩
  · rfl
  · have visible := last c (by simp)
    rw [List.concat_eq_append, trimEnd, List.reverse_concat,
      List.dropWhile_cons_of_neg (by simp [visible]), ← List.reverse_concat, List.reverse_reverse]

theorem trimStart_blanks {before : List Char} (blank : ∀ c ∈ before, isBlank c = true)
    (t : List Char) : trimStart (before ++ t) = trimStart t := by
  rw [trimStart, List.dropWhile_append_of_pos blank, trimStart]

theorem trim_blanks {before after : List Char} (blank : ∀ c ∈ before ++ after, isBlank c = true)
    (t : List Char) : trim (before ++ t ++ after) = trim t := by
  induction after using List.reverseRecOn with
  | nil =>
    rw [List.append_nil] at blank ⊢
    rw [trim, trimStart_blanks blank, trim]
  | append_singleton after c ih =>
    rw [← List.append_assoc] at blank ⊢
    rw [trim_concat (blank c (by simp))]
    exact ih fun c' inside => blank c' (List.mem_append_left _ inside)

/-- Trimming takes off blanks and nothing else. -/
theorem exists_blanks (t : List Char) :
    ∃ before after, t = before ++ trim t ++ after ∧ ∀ c ∈ before ++ after, isBlank c = true := by
  have start : t = t.takeWhile isBlank ++ trimStart t := List.takeWhile_append_dropWhile.symm
  have back : trimStart t = trim t ++ ((trimStart t).reverse.takeWhile isBlank).reverse := by
    rw [trim, trimEnd, ← List.reverse_append, List.takeWhile_append_dropWhile,
      List.reverse_reverse]
  refine ⟨t.takeWhile isBlank, ((trimStart t).reverse.takeWhile isBlank).reverse, ?_,
    fun c inside => ?_⟩
  · rw [List.append_assoc, ← back]
    exact start
  · rcases List.mem_append.1 inside with first | last
    · exact List.mem_takeWhile_imp first
    · exact List.mem_takeWhile_imp (List.mem_reverse.1 last)

/-- A numeral behind other characters ends a text without blanks. -/
theorem trim_append_digits (kind : List Char) (first : ∀ c ∈ kind.head?, isBlank c = false)
    (n : Nat) : trim (kind ++ Numeral.digits n) = kind ++ Numeral.digits n := by
  have ne : Numeral.digits n ≠ [] := Nat.toDigits_ne_nil
  have digit : ∀ c ∈ Numeral.digits n, isBlank c = false := fun c inside =>
    not_isBlank_of_isDigit (Numeral.isDigit_of_mem_digits inside)
  refine trim_of_ends (fun c here => ?_) fun c last => ?_
  · rw [List.head?_append, Option.mem_def, Option.or_eq_some_iff] at here
    rcases here with of_kind | ⟨-, of_digits⟩
    · exact first c of_kind
    · exact digit c (List.mem_of_head? of_digits)
  · rw [List.getLast?_append_of_ne_nil kind ne] at last
    exact digit c (List.mem_of_getLast? last)

end ScaleWatch.Text
