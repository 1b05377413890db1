import ScaleWatch.Proofs.Text.Numerals
import ScaleWatch.Proofs.Toml.Quoted
import ScaleWatch.Toml.Statement

/-!
# Settings that are written are read

A number, a text or a list of texts that is written behind the name of a setting is read as that
value, up to the end of its line.
-/

namespace ScaleWatch.Toml

open Text

/-! ### Numbers -/

section Numbers

variable {n : Nat} {rest : List Char}

/-- Behind a numeral at the end of a line there is no mark that makes a date or a time of it. -/
theorem head?_drop_ne {ds : List Char} (digits : ∀ d ∈ ds, d.isDigit = true) {k : Nat} {c : Char}
    (mark : c.isDigit = false ∧ c ≠ '\n')
    (all : ((ds ++ '\n' :: rest).take k).all Char.isDigit = true) :
    ((ds ++ '\n' :: rest).drop k).head? ≠ some c := by
  induction ds generalizing k with
  | nil =>
    cases k with
    | zero => exact fun here => mark.2 (Option.some.inj here).symm
    | succ k => cases all
  | cons d ds ih =>
    obtain ⟨first, later⟩ := List.forall_mem_cons.1 digits
    cases k with
    | zero => exact fun here => ne_of_isDigit first mark.1 (Option.some.inj here)
    | succ k =>
      rw [List.cons_append, List.take_succ_cons, List.all_cons, Bool.and_eq_true] at all
      exact ih later all.2

theorem beginsDate_digits (n : Nat) (rest : List Char) :
    beginsDate (Numeral.digits n ++ '\n' :: rest) = false := by
  have digits : ∀ d ∈ Numeral.digits n, d.isDigit = true := fun _ => Numeral.isDigit_of_mem_digits
  by_contra date
  simp only [beginsDate, Bool.not_eq_false, Bool.and_eq_true, beq_iff_eq] at date
  exact head?_drop_ne digits (by decide) date.1.2 date.2

theorem beginsTime_digits (n : Nat) (rest : List Char) :
    beginsTime (Numeral.digits n ++ '\n' :: rest) = false := by
  have digits : ∀ d ∈ Numeral.digits n, d.isDigit = true := fun _ => Numeral.isDigit_of_mem_digits
  by_contra time
  simp only [beginsTime, Bool.not_eq_false, Bool.and_eq_true, beq_iff_eq] at time
  exact head?_drop_ne digits (by decide) time.1.2 time.2

theorem readDigits_append {ds : List Char} (digits : ∀ d ∈ ds, d.isDigit = true)
    (rest : List Char) : readDigits Char.isDigit (ds ++ '\n' :: rest) = (ds, '\n' :: rest) := by
  induction ds with
  | nil => cases rest <;> rfl
  | cons d ds ih =>
    obtain ⟨first, later⟩ := List.forall_mem_cons.1 digits
    rw [List.cons_append, readDigits.eq_2, if_pos first, ih later]
    exact fun _ _ here _ => ne_of_isDigit first (by decide) here

theorem readWhole_digits (n : Nat) (rest : List Char) :
    readWhole (Numeral.digits n ++ '\n' :: rest) = some (Numeral.digits n, '\n' :: rest) := by
  have read := readDigits_append (fun _ => Numeral.isDigit_of_mem_digits (n := n)) rest
  obtain ⟨c, more, written, digit⟩ := Numeral.digits_eq_cons n
  by_cases zero : c = '0'
  · subst zero
    rw [written, Numeral.eq_nil_of_digits_zero written]
    rfl
  · rw [written] at read ⊢
    rw [List.cons_append, readWhole.eq_2, readDigits1, if_pos digit, ← List.cons_append, read]
    exact fun _ here => zero (List.cons.inj here).1

theorem integer?_natCast (small : (n : Int) ≤ maxInteger) : integer? n = some (.integer n) := by
  have signed : minInteger ≤ 0 := by decide
  exact if_pos ⟨Int.le_trans signed (Int.natCast_nonneg n), small⟩

theorem readDecimal_digits (small : (n : Int) ≤ maxInteger) (rest : List Char) :
    readDecimal (Numeral.digits n ++ '\n' :: rest) = some (.integer n, '\n' :: rest) := by
  have whole := readWhole_digits n rest
  have value : Nat.ofDigitChars 10 (Numeral.digits n) 0 = n :=
    Nat.ofDigitChars_toDigits (by decide) (by decide)
  obtain ⟨c, more, written, digit⟩ := Numeral.digits_eq_cons n
  have unsigned : readSign (Numeral.digits n ++ '\n' :: rest) =
      (false, Numeral.digits n ++ '\n' :: rest) := by
    rw [written, List.cons_append, readSign.eq_3]
    · exact fun _ here => ne_of_isDigit digit (by decide) (List.cons.inj here).1
    · exact fun _ here => ne_of_isDigit digit (by decide) (List.cons.inj here).1
  rw [readDecimal, unsigned]
  dsimp only
  split
  · next here =>
    rw [written] at here
    exact absurd (List.cons.inj here).1 (ne_of_isDigit digit (by decide))
  · next here =>
    rw [written] at here
    exact absurd (List.cons.inj here).1 (ne_of_isDigit digit (by decide))
  · simp [whole, readFraction, readExponent, value, integer?_natCast small]

theorem readNumeric_digits (small : (n : Int) ≤ maxInteger) (rest : List Char) :
    readNumeric (Numeral.digits n ++ '\n' :: rest) = some (.integer n, '\n' :: rest) := by
  have read := readDecimal_digits small rest
  -- what stands behind a zero in front is the end of the line, so it announces no other radix
  have radix : ∀ mark more, mark ≠ '\n' →
      Numeral.digits n ++ '\n' :: rest ≠ '0' :: mark :: more := by
    intro mark more other here
    obtain ⟨c, digits, written, -⟩ := Numeral.digits_eq_cons n
    rw [written, List.cons_append] at here
    obtain ⟨rfl, tail⟩ := List.cons.inj here
    rw [Numeral.eq_nil_of_digits_zero written, List.nil_append] at tail
    exact other (List.cons.inj tail).1.symm
  rw [readNumeric.eq_4, beginsDate_digits, beginsTime_digits, if_neg Bool.false_ne_true,
    if_neg Bool.false_ne_true, read]
  all_goals exact fun more here => radix _ more (by decide) here

theorem readScalar_digits (small : (n : Int) ≤ maxInteger) (rest : List Char) :
    readScalar (Numeral.digits n ++ '\n' :: rest) = some (.integer n, '\n' :: rest) := by
  have read := readNumeric_digits small rest
  obtain ⟨c, more, written, digit⟩ := Numeral.digits_eq_cons n
  rw [written, List.cons_append] at read ⊢
  rw [readScalar.eq_5, read]
  all_goals exact fun _ here => ne_of_isDigit digit (by decide) (List.cons.inj here).1

end Numbers

/-! ### Texts and lists of texts -/

section Values

variable {depth : Nat} {rest : List Char}

/-- A value that begins with no bracket and no brace is a scalar. -/
theorem readValue_scalar {c : Char} (bracket : c ≠ '[') (brace : c ≠ '\x7b') (t : List Char) :
    readValue depth (c :: t) = readScalar (c :: t) := by
  rw [readValue.eq_5]
  · exact fun _ _ here => bracket (List.cons.inj here).1
  · exact fun _ _ here => brace (List.cons.inj here).1
  · exact fun _ _ _ here => bracket (List.cons.inj here).1
  · exact fun _ _ _ here => brace (List.cons.inj here).1

theorem readValue_digits {n : Nat} (small : (n : Int) ≤ maxInteger) (rest : List Char) :
    readValue depth (Numeral.digits n ++ '\n' :: rest) = some (.integer n, '\n' :: rest) := by
  have read := readScalar_digits small rest
  obtain ⟨c, more, written, digit⟩ := Numeral.digits_eq_cons n
  rw [written, List.cons_append] at read ⊢
  rw [readValue_scalar (ne_of_isDigit digit (by decide)) (ne_of_isDigit digit (by decide)), read]

theorem readValue_quote (depth : Nat) (t : List Char) (ends : NoQuote rest) :
    readValue depth (quote t ++ rest) = some (.string t, rest) := by
  have read := readString_quote t ends
  obtain ⟨more, written⟩ := quote_eq_cons t
  rw [written, List.cons_append] at read ⊢
  rw [readValue_scalar (by decide) (by decide), readScalar.eq_3, read]
  rfl

section Items

variable {read : List Char → Option (Value × List Char)} {fuel : Nat} {c : Char}
  {lines t behind : List Char} {v : Value}

theorem readItems_last (begins : skipLines false lines = c :: t) (item : c ≠ ']')
    (here : read (c :: t) = some (v, behind)) (ends : skipLines false behind = ']' :: rest) :
    readItems read (fuel + 1) lines = some ([v], rest) := by
  rw [readItems, begins]
  split
  · next bracket => exact absurd (List.cons.inj bracket).1 item
  · simp only [here, Option.bind_eq_bind, Option.bind_some, ends]

theorem readItems_more (begins : skipLines false lines = c :: t) (item : c ≠ ']')
    (here : read (c :: t) = some (v, behind)) (ends : skipLines false behind = ',' :: rest) :
    readItems read (fuel + 1) lines =
      (readItems read fuel rest).map fun (items, rest) => (v :: items, rest) := by
  rw [readItems, begins]
  split
  · next bracket => exact absurd (List.cons.inj bracket).1 item
  · simp only [here, Option.bind_eq_bind, Option.bind_some, ends]
    rcases readItems read fuel rest with _ | ⟨items, rest⟩ <;> rfl

end Items

theorem readItems_alone (fuel : Nat) (t rest : List Char) :
    readItems (readValue depth) (fuel + 1) (quote t ++ ']' :: rest) =
      some ([.string t], rest) := by
  have ends : NoQuote (']' :: rest) := noQuote_cons (by decide) rest
  have read := readValue_quote depth t ends
  obtain ⟨more, written⟩ := quote_eq_cons t
  rw [written, List.cons_append] at read ⊢
  exact readItems_last rfl (by decide) read rfl

/-- An item on a line of its own is read, and then the items on the lines below. -/
theorem readItems_line (fuel : Nat) (t below : List Char) :
    readItems (readValue depth) (fuel + 1) ('\n' :: (Setting.itemLine t ++ below)) =
      (readItems (readValue depth) fuel ('\n' :: below)).map
        fun (items, rest) => (.string t :: items, rest) := by
  have ends : NoQuote (',' :: '\n' :: below) := noQuote_cons (by decide) _
  have read := readValue_quote depth t ends
  obtain ⟨more, written⟩ := quote_eq_cons t
  rw [written, List.cons_append] at read
  have begins : skipLines false ('\n' :: (Setting.itemLine t ++ below)) =
      '"' :: (more ++ ',' :: '\n' :: below) := by
    rw [Setting.itemLine, written, List.append_assoc, List.append_assoc]
    rfl
  exact readItems_more begins (by decide) read rfl

theorem readItems_lines {fuel : Nat} (ts : List (List Char)) (enough : ts.length < fuel)
    (rest : List Char) :
    readItems (readValue depth) fuel ('\n' :: (ts.flatMap Setting.itemLine ++ ']' :: rest)) =
      some (ts.map .string, rest) := by
  induction ts generalizing fuel with
  | nil =>
    obtain ⟨fuel, rfl⟩ := Nat.exists_eq_succ_of_ne_zero (Nat.ne_of_gt enough)
    rfl
  | cons t ts ih =>
    obtain ⟨fuel, rfl⟩ := Nat.exists_eq_succ_of_ne_zero (Nat.ne_zero_of_lt enough)
    rw [List.flatMap_cons, List.append_assoc, readItems_line, ih (Nat.lt_of_succ_lt_succ enough)]
    rfl

theorem length_le_flatMap_itemLine (ts : List (List Char)) :
    ts.length ≤ (ts.flatMap Setting.itemLine).length := by
  induction ts with
  | nil => exact Nat.le_refl _
  | cons t ts ih =>
    have line : 1 ≤ (Setting.itemLine t).length := by simp [Setting.itemLine]
    rw [List.flatMap_cons, List.length_append, List.length_cons]
    omega

/-! ### Settings -/

/-- The setting can be written: TOML numbers have 64 bits and a sign. -/
def Setting.Fits : Setting → Prop
  | number n => (n : Int) ≤ maxInteger
  | text _ | texts _ => True

theorem readValue_array {t : List Char} {items : List Value}
    (read : readItems (readValue depth) t.length t = some (items, rest)) :
    readValue (depth + 1) ('[' :: t) = some (.array items, rest) := by
  rw [readValue.eq_3, read]
  rfl

theorem readValue_setting {v : Setting} (fits : v.Fits) (rest : List Char) :
    readValue (depth + 1) (v.chars ++ '\n' :: rest) = some (v.value, '\n' :: rest) := by
  match v with
  | .number n => exact readValue_digits fits rest
  | .text t => exact readValue_quote _ t (noQuote_cons (by decide) rest)
  | .texts [] => exact readValue_array rfl
  | .texts [t] =>
    rw [Setting.chars, List.cons_append, List.append_assoc]
    refine readValue_array ?_
    rw [List.singleton_append, List.length_append, List.length_cons, ← Nat.add_assoc]
    exact readItems_alone _ t _
  | .texts (t :: t' :: ts) =>
    have long := length_le_flatMap_itemLine (t :: t' :: ts)
    have written : (Setting.texts (t :: t' :: ts)).chars ++ '\n' :: rest =
        '[' :: '\n' :: ((t :: t' :: ts).flatMap Setting.itemLine ++ ']' :: '\n' :: rest) := by
      change "[\n".toList ++ (t :: t' :: ts).flatMap Setting.itemLine ++ [']'] ++ _ = _
      rw [List.append_assoc, List.append_assoc]
      rfl
    rw [written]
    refine readValue_array (readItems_lines _ ?_ _)
    simp only [List.length_cons, List.length_append] at long ⊢
    omega

end Values

end ScaleWatch.Toml
