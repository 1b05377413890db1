import Mathlib.Data.List.Basic
import Mathlib.Data.Option.Basic
import Mathlib.Tactic.SplitIfs
import ScaleWatch.Toml.Scalar
import ScaleWatch.Toml.Section

/-!
# Quoted texts that are written are read

Whatever characters a text has, its quoted form is read as that text, on one line as well as in a
block.  What carries the proof is that the escape of one character is read as that character,
whatever comes behind it (`readBasic_escape`, `readBasicBlock_escape`).  A quote behind the closing
ones would be taken for another kind of text, so there must be none (`NoQuote`).
-/

namespace ScaleWatch.Toml

open Text

/-! ### Escapes -/

theorem value?_upper4 : ∀ n < 0x80,
    (Hex.upper4 n).length = 4 ∧ Hex.value? (Hex.upper4 n) = some n := by
  decide +kernel

theorem scalar?_upper4 {c : Char} (short : c.toNat < 0x80) :
    ∃ a b d e, Hex.upper4 c.toNat = [a, b, d, e] ∧ scalar? [a, b, d, e] = some c := by
  obtain ⟨four, value⟩ := value?_upper4 c.toNat short
  obtain ⟨a, b, d, e, written⟩ := List.length_eq_four.1 four
  have valid : (guard c.toNat.isValidChar : Option Unit) = some () := if_pos c.valid
  refine ⟨a, b, d, e, written, ?_⟩
  rw [written] at value
  simp only [scalar?, value, Option.bind_eq_bind, Option.bind_some, valid, Char.ofNat_toNat]
  rfl

/-- A character is escaped in short or by its number, or it stands for itself. -/
theorem escape_cases (c : Char) :
    (∃ e, escape c = ['\\', e] ∧ shortEscape? e = some c) ∨
      c.toNat < 0x80 ∧ escape c = '\\' :: 'u' :: Hex.upper4 c.toNat ∨
      c ∉ ['"', '\\', '\n', '\r'] ∧ isPlain c = true ∧ escape c = [c] := by
  unfold escape
  split_ifs with quote backslash feed return_ tab back form control
  · exact .inl ⟨'"', rfl, congrArg some quote.symm⟩
  · exact .inl ⟨'\\', rfl, congrArg some backslash.symm⟩
  · exact .inl ⟨'n', rfl, congrArg some feed.symm⟩
  · exact .inl ⟨'r', rfl, congrArg some return_.symm⟩
  · exact .inl ⟨'t', rfl, congrArg some tab.symm⟩
  · exact .inl ⟨'b', rfl, congrArg some back.symm⟩
  · exact .inl ⟨'f', rfl, congrArg some form.symm⟩
  · exact .inr (.inl ⟨by omega, rfl⟩)
  · refine .inr (.inr ⟨by simp [quote, backslash, feed, return_], ?_, rfl⟩)
    simp only [isPlain, Bool.or_eq_true, Bool.and_eq_true, decide_eq_true_eq]
    omega

theorem ne_of_short {e c : Char} (short : shortEscape? e = some c) :
    e ∉ ['u', 'U', ' ', '\t', '\n', '\r'] := by
  intro inside
  simp only [List.mem_cons, List.not_mem_nil, or_false] at inside
  rcases inside with rfl | rfl | rfl | rfl | rfl | rfl <;> cases short

/-! ### One line -/

theorem readBasic_escape (c : Char) (t : List Char) :
    readBasic (escape c ++ t) = consRead c (readBasic t) := by
  rcases escape_cases c with ⟨e, written, short⟩ | ⟨small, written⟩ | ⟨special, plain, written⟩
  · have ne := ne_of_short short
    simp only [List.mem_cons, List.not_mem_nil, or_false, not_or] at ne
    rw [written]
    simp only [List.cons_append, List.nil_append]
    rw [readBasic.eq_5 e t (fun _ _ _ _ _ here _ => ne.1 here)
      (fun _ _ _ _ _ _ _ _ _ here _ => ne.2.1 here), short]
    rfl
  · obtain ⟨a, b, d, e, digits, value⟩ := scalar?_upper4 small
    rw [written, digits]
    simp only [List.cons_append, List.nil_append]
    rw [readBasic.eq_3, value]
    rfl
  · simp only [List.mem_cons, List.not_mem_nil, or_false, not_or] at special
    obtain ⟨quote, backslash, -⟩ := special
    rw [written]
    simp only [List.cons_append, List.nil_append]
    rw [readBasic.eq_6 c t quote (fun _ _ _ _ _ here _ => backslash here)
      (fun _ _ _ _ _ _ _ _ _ here _ => backslash here) (fun _ _ here _ => backslash here),
      if_pos plain]

theorem readBasic_quoted (t rest : List Char) :
    readBasic (t.flatMap escape ++ '"' :: rest) = some (t, rest) := by
  induction t with
  | nil => exact readBasic.eq_2 rest
  | cons c t ih =>
    rw [List.flatMap_cons, List.append_assoc, readBasic_escape, ih]
    rfl

/-! ### Blocks -/

theorem joinsLines_of_short {e c : Char} (short : shortEscape? e = some c) (t : List Char) :
    joinsLines (e :: t) = false := by
  have ne := ne_of_short short
  simp only [List.mem_cons, List.not_mem_nil, or_false, not_or] at ne
  have visible : isBlank e = false := by simp [isBlank, ne]
  rw [joinsLines, skipBlanks, List.dropWhile_cons_of_neg (by simp [visible]), afterNewline?]
  · rfl
  · exact fun _ here => ne.2.2.2.2.1 (List.cons.inj here).1
  · exact fun _ here => ne.2.2.2.2.2 (List.cons.inj here).1

theorem readBasicBlock_escape (c : Char) (t : List Char) :
    readBasicBlock false (escape c ++ t) = consRead c (readBasicBlock false t) := by
  rcases escape_cases c with ⟨e, written, short⟩ | ⟨small, written⟩ | ⟨special, plain, written⟩
  · have ne := ne_of_short short
    simp only [List.mem_cons, List.not_mem_nil, or_false, not_or] at ne
    rw [written]
    simp only [List.cons_append, List.nil_append]
    rw [readBasicBlock.eq_9 false e t (fun _ _ _ _ _ here _ => ne.1 here)
      (fun _ _ _ _ _ _ _ _ _ here _ => ne.2.1 here), joinsLines_of_short short, short]
    rfl
  · obtain ⟨a, b, d, e, digits, value⟩ := scalar?_upper4 small
    rw [written, digits]
    simp only [List.cons_append, List.nil_append]
    rw [readBasicBlock.eq_7, value]
    rfl
  · simp only [List.mem_cons, List.not_mem_nil, or_false, not_or] at special
    obtain ⟨quote, backslash, feed, return_⟩ := special
    rw [written]
    simp only [List.cons_append, List.nil_append]
    rw [readBasicBlock.eq_10 false c t (fun _ here _ => quote here) (fun _ here _ => quote here)
      (fun _ here _ => quote here) (fun _ here _ => return_ here) feed
      (fun _ _ _ _ _ here _ => backslash here) (fun _ _ _ _ _ _ _ _ _ here _ => backslash here)
      (fun _ _ here _ => backslash here), Bool.false_and, if_neg Bool.false_ne_true, if_pos plain]

/-- There is no quote in front. -/
def NoQuote (t : List Char) : Prop :=
  t.head? ≠ some '"'

theorem noQuote_cons {c : Char} (other : c ≠ '"') (t : List Char) : NoQuote (c :: t) :=
  fun here => other (Option.some.inj here)

theorem readBasicBlock_quoted (t : List Char) {rest : List Char} (ends : NoQuote rest) :
    readBasicBlock false ((t.flatMap fun c => if c = '\n' then ['\n'] else escape c) ++
      "\"\"\"".toList ++ rest) = some (t, rest) := by
  induction t with
  | nil =>
    refine readBasicBlock.eq_4 false rest (fun more here => ends ?_) (fun more here => ends ?_)
    · rw [here]
      rfl
    · rw [here]
      rfl
  | cons c t ih =>
    rw [List.flatMap_cons, List.append_assoc, List.append_assoc, ← List.append_assoc _ _ rest]
    by_cases feed : c = '\n'
    · subst feed
      rw [if_pos rfl, List.singleton_append, readBasicBlock.eq_6, if_neg Bool.false_ne_true, ih]
      rfl
    · rw [if_neg feed, readBasicBlock_escape, ih]
      rfl

/-! ### Quoted texts -/

/-- Only the empty text has a quote behind the opening one. -/
theorem noQuote_escape (c : Char) (t : List Char) : NoQuote (escape c ++ t) := by
  rcases escape_cases c with ⟨e, written, -⟩ | ⟨-, written⟩ | ⟨special, -, written⟩
  · rw [written]
    exact noQuote_cons (by decide) _
  · rw [written]
    exact noQuote_cons (by decide) _
  · rw [written]
    exact noQuote_cons (fun here => special (by simp [here])) _

theorem readString_quoteLine (t : List Char) {rest : List Char} (ends : NoQuote rest) :
    readString (quoteLine t ++ rest) = some (t, rest) := by
  have read := readBasic_quoted t rest
  have same : quoteLine t ++ rest = '"' :: (t.flatMap escape ++ '"' :: rest) := by
    simp [quoteLine]
  rw [same, readString.eq_2, read]
  -- three quotes would open a block
  intro more here
  cases t with
  | nil =>
    rw [List.flatMap_nil, List.nil_append] at here
    exact ends (by rw [(List.cons.inj here).2]; rfl)
  | cons c t =>
    rw [List.flatMap_cons, List.append_assoc] at here
    exact noQuote_escape c _ (by rw [here]; rfl)

theorem readString_quoteBlock (t : List Char) {rest : List Char} (ends : NoQuote rest) :
    readString (quoteBlock t ++ rest) = some (t, rest) := by
  have read := readBasicBlock_quoted t ends
  rw [quoteBlock, List.append_assoc, List.append_assoc, ← List.append_assoc _ _ rest]
  exact read

theorem readString_quote (t : List Char) {rest : List Char} (ends : NoQuote rest) :
    readString (quote t ++ rest) = some (t, rest) := by
  unfold quote
  split
  · exact readString_quoteBlock t ends
  · exact readString_quoteLine t ends

theorem quote_eq_cons (t : List Char) : ∃ more, quote t = '"' :: more := by
  unfold quote
  split
  · exact ⟨_, rfl⟩
  · exact ⟨_, rfl⟩

end ScaleWatch.Toml
