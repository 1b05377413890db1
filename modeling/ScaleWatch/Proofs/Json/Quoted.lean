import Mathlib.Data.Option.Basic
import ScaleWatch.Json.Outline

/-!
# Quoted texts

Between its quotes a text is written in pieces: a character as it stands, a short escape, or a
16-bit unit in four hexadecimal digits (`Inside`).  The pieces stand for a text if each is a
character of it, or two units are, as its surrogates (`Stand`); a half of a pair stands for nothing.
That is what is read, and nothing else is (`readPieces_eq_some_iff`, `join?_eq_some_iff`).
-/

namespace ScaleWatch.Json

open Text Outline

/-! ### Pieces -/

/-- The characters between quotes, and the pieces that they are. -/
inductive Inside : List Char → List Piece → Prop
  | nil : Inside [] []
  | plain {c t pieces} (quote : c ≠ '"') (backslash : c ≠ '\\') (printable : 0x20 ≤ c.toNat)
    (more : Inside t pieces) : Inside (c :: t) (.char c :: pieces)
  | short {e c t pieces} (letter : shortEscape? e = some c) (more : Inside t pieces) :
    Inside ('\\' :: e :: t) (.char c :: pieces)
  | numbered {a b c d n t pieces} (value : Hex.value? [a, b, c, d] = some n)
    (more : Inside t pieces) : Inside ('\\' :: 'u' :: a :: b :: c :: d :: t) (.unit n :: pieces)

/-- Put a piece in front of those that are read. -/
def preceded (piece : Piece) (read : Option (List Piece × List Char)) :
    Option (List Piece × List Char) :=
  read.map fun (pieces, rest) => (piece :: pieces, rest)

theorem preceded_eq_some_iff {piece : Piece} {read : Option (List Piece × List Char)}
    {pieces : List Piece} {rest : List Char} :
    preceded piece read = some (pieces, rest) ↔
      ∃ later, read = some (later, rest) ∧ pieces = piece :: later := by
  rw [preceded, Option.map_eq_some_iff]
  constructor
  · rintro ⟨⟨later, rest'⟩, here, same⟩
    cases same
    exact ⟨later, here, rfl⟩
  · rintro ⟨later, here, rfl⟩
    exact ⟨_, here, rfl⟩

theorem readPieces_plain {c : Char} (quote : c ≠ '"') (backslash : c ≠ '\\')
    (printable : 0x20 ≤ c.toNat) (t : List Char) :
    readPieces (c :: t) = preceded (.char c) (readPieces t) := by
  rw [readPieces.eq_5 c t quote (fun _ _ _ _ _ here _ => backslash here)
    (fun _ _ here _ => backslash here)]
  rw [(Option.guard_eq_some' ()).2 printable]
  cases readPieces t <;> rfl

theorem readPieces_short {e c : Char} (letter : shortEscape? e = some c) (t : List Char) :
    readPieces ('\\' :: e :: t) = preceded (.char c) (readPieces t) := by
  have ne : e ≠ 'u' := by
    rintro rfl
    cases letter
  rw [readPieces.eq_4 e t (fun _ _ _ _ _ here _ => ne here), letter]
  cases readPieces t <;> rfl

theorem readPieces_numbered {a b c d : Char} {n : Nat} (value : Hex.value? [a, b, c, d] = some n)
    (t : List Char) :
    readPieces ('\\' :: 'u' :: a :: b :: c :: d :: t) = preceded (.unit n) (readPieces t) := by
  rw [readPieces.eq_3, value]
  cases readPieces t <;> rfl

theorem Inside.read {t : List Char} {pieces : List Piece} (inside : Inside t pieces)
    (rest : List Char) : readPieces (t ++ '"' :: rest) = some (pieces, rest) := by
  induction inside with
  | nil => rfl
  | plain quote backslash printable _ ih =>
    rw [List.cons_append, readPieces_plain quote backslash printable, ih]
    rfl
  | short letter _ ih =>
    rw [List.cons_append, List.cons_append, readPieces_short letter, ih]
    rfl
  | numbered value _ ih =>
    simp only [List.cons_append]
    rw [readPieces_numbered value, ih]
    rfl

/-- Up to the quote that closes it, what is inside is read, and only that. -/
theorem readPieces_eq_some_iff {s rest : List Char} {pieces : List Piece} :
    readPieces s = some (pieces, rest) ↔ ∃ t, Inside t pieces ∧ s = t ++ '"' :: rest := by
  constructor
  · intro h
    induction s using readPieces.induct generalizing pieces with
    | case1 => cases h
    | case2 rest' =>
      cases h
      exact ⟨[], .nil, rfl⟩
    | case3 a b c d rest' ih =>
      cases value : Hex.value? [a, b, c, d] with
      | none =>
        rw [readPieces.eq_3, value] at h
        cases h
      | some n =>
        rw [readPieces_numbered value, preceded_eq_some_iff] at h
        obtain ⟨later, read, rfl⟩ := h
        obtain ⟨t, inside, rfl⟩ := ih read
        exact ⟨_, .numbered value inside, rfl⟩
    | case4 e rest' other ih =>
      cases letter : shortEscape? e with
      | none =>
        rw [readPieces.eq_4 e rest' other, letter] at h
        cases h
      | some c =>
        rw [readPieces_short letter, preceded_eq_some_iff] at h
        obtain ⟨later, read, rfl⟩ := h
        obtain ⟨t, inside, rfl⟩ := ih read
        exact ⟨_, .short letter inside, rfl⟩
    | case5 c rest' quote long escape ih =>
      by_cases printable : 0x20 ≤ c.toNat
      · have backslash : c ≠ '\\' := by
          rintro rfl
          cases rest' with
          | nil => cases h
          | cons e more => exact escape e more rfl rfl
        rw [readPieces_plain quote backslash printable, preceded_eq_some_iff] at h
        obtain ⟨later, read, rfl⟩ := h
        obtain ⟨t, inside, rfl⟩ := ih read
        exact ⟨_, .plain quote backslash printable inside, rfl⟩
      · rw [readPieces.eq_5 c rest' quote long escape, guard, if_neg printable] at h
        cases h
  · rintro ⟨t, inside, rfl⟩
    exact inside.read rest

/-! ### Characters -/

/-- The text that pieces stand for. -/
inductive Stand : List Piece → List Char → Prop
  | nil : Stand [] []
  | char {c pieces t} (more : Stand pieces t) : Stand (.char c :: pieces) (c :: t)
  | unit {c : Char} {pieces t} (basic : c.toNat < 0x10000) (more : Stand pieces t) :
    Stand (.unit c.toNat :: pieces) (c :: t)
  | pair {c : Char} {pieces t} (beyond : 0x10000 ≤ c.toNat) (more : Stand pieces t) :
    Stand (.unit (0xD800 + (c.toNat - 0x10000) / 0x400) ::
      .unit (0xDC00 + (c.toNat - 0x10000) % 0x400) :: pieces) (c :: t)

theorem isHighSurrogate_iff {n : Nat} : isHighSurrogate n = true ↔ 0xD800 ≤ n ∧ n < 0xDC00 := by
  simp [isHighSurrogate]

theorem isLowSurrogate_iff {n : Nat} : isLowSurrogate n = true ↔ 0xDC00 ≤ n ∧ n < 0xE000 := by
  simp [isLowSurrogate]

theorem toNat_ofNat {n : Nat} (valid : n.isValidChar) : (Char.ofNat n).toNat = n := by
  rw [Char.ofNat, dif_pos valid]
  rfl

theorem join?_char (c : Char) (pieces : List Piece) :
    join? (.char c :: pieces) = (join? pieces).map (c :: ·) :=
  rfl

/-- Of a unit that is no half of a pair, a character is made at once. -/
theorem join?_unit {n : Nat} (high : isHighSurrogate n = false) (low : isLowSurrogate n = false)
    (pieces : List Piece) :
    join? (.unit n :: pieces) = (join? pieces).map (Char.ofNat n :: ·) := by
  rcases pieces with _ | ⟨_ | _, rest⟩ <;> simp [join?, high, low]

theorem join?_pair {hi lo : Nat} (high : isHighSurrogate hi = true)
    (low : isLowSurrogate lo = true) (pieces : List Piece) :
    join? (.unit hi :: .unit lo :: pieces) = (join? pieces).map
      (Char.ofNat (0x10000 + (hi - 0xD800) * 0x400 + (lo - 0xDC00)) :: ·) := by
  rw [join?, high, low]
  rfl

theorem surrogate_of_char (c : Char) :
    isHighSurrogate c.toNat = false ∧ isLowSurrogate c.toNat = false := by
  have valid : c.toNat.isValidChar := c.valid
  simp only [← Bool.not_eq_true, isHighSurrogate_iff, isLowSurrogate_iff]
  unfold Nat.isValidChar at valid
  omega

theorem toNat_lt (c : Char) : c.toNat < 0x110000 := by
  have valid : c.toNat.isValidChar := c.valid
  unfold Nat.isValidChar at valid
  omega

theorem Stand.join {pieces : List Piece} {t : List Char} (stand : Stand pieces t) :
    join? pieces = some t := by
  induction stand with
  | nil => rfl
  | char _ ih =>
    rw [join?_char, ih]
    rfl
  | @unit c _ _ _ _ ih =>
    obtain ⟨high, low⟩ := surrogate_of_char c
    rw [join?_unit high low, ih, Char.ofNat_toNat]
    rfl
  | @pair c _ _ beyond _ ih =>
    have small := toNat_lt c
    rw [join?_pair (isHighSurrogate_iff.2 (by omega)) (isLowSurrogate_iff.2 (by omega)), ih,
      show 0x10000 + (0xD800 + (c.toNat - 0x10000) / 0x400 - 0xD800) * 0x400 +
        (0xDC00 + (c.toNat - 0x10000) % 0x400 - 0xDC00) = c.toNat by omega, Char.ofNat_toNat]
    rfl

/-- Units have 16 bits. -/
def Bounded (pieces : List Piece) : Prop :=
  ∀ n, .unit n ∈ pieces → n < 0x10000

theorem Bounded.cons {piece : Piece} {pieces : List Piece} (bounded : Bounded pieces)
    (first : ∀ n, piece = .unit n → n < 0x10000) : Bounded (piece :: pieces) := by
  intro n inside
  rcases List.mem_cons.1 inside with same | later
  · exact first n same.symm
  · exact bounded n later

theorem Bounded.tail {piece : Piece} {pieces : List Piece} (bounded : Bounded (piece :: pieces)) :
    Bounded pieces :=
  fun n inside => bounded n (List.mem_cons_of_mem piece inside)

theorem Stand.of_unit {n : Nat} {pieces : List Piece} {t : List Char} (bounded : n < 0x10000)
    (whole : ¬(isHighSurrogate n || isLowSurrogate n) = true) (more : Stand pieces t) :
    Stand (.unit n :: pieces) (Char.ofNat n :: t) := by
  rw [Bool.or_eq_true, isHighSurrogate_iff, isLowSurrogate_iff] at whole
  have valid : n.isValidChar := by
    unfold Nat.isValidChar
    omega
  have back := toNat_ofNat valid
  have stand := Stand.unit (c := Char.ofNat n) (back.symm ▸ bounded) more
  rwa [back] at stand

theorem Stand.of_pair {hi lo : Nat} {pieces : List Piece} {t : List Char}
    (pair : (isHighSurrogate hi && isLowSurrogate lo) = true) (more : Stand pieces t) :
    Stand (.unit hi :: .unit lo :: pieces)
      (Char.ofNat (0x10000 + (hi - 0xD800) * 0x400 + (lo - 0xDC00)) :: t) := by
  rw [Bool.and_eq_true, isHighSurrogate_iff, isLowSurrogate_iff] at pair
  generalize code : 0x10000 + (hi - 0xD800) * 0x400 + (lo - 0xDC00) = n
  have valid : n.isValidChar := by
    unfold Nat.isValidChar
    omega
  have back := toNat_ofNat valid
  have stand := Stand.pair (c := Char.ofNat n) (by omega) more
  rwa [back, show 0xD800 + (n - 0x10000) / 0x400 = hi by omega,
    show 0xDC00 + (n - 0x10000) % 0x400 = lo by omega] at stand

theorem stand_of_join {pieces : List Piece} {t : List Char} (bounded : Bounded pieces)
    (joined : join? pieces = some t) : Stand pieces t := by
  induction pieces using join?.induct generalizing t with
  | case1 =>
    cases joined
    exact .nil
  | case2 c rest ih =>
    rw [join?_char, Option.map_eq_some_iff] at joined
    obtain ⟨t, joined, rfl⟩ := joined
    exact .char (ih bounded.tail joined)
  | case3 hi lo rest pair ih =>
    rw [join?, if_pos pair, Option.map_eq_some_iff] at joined
    obtain ⟨t, joined, rfl⟩ := joined
    exact .of_pair pair (ih bounded.tail.tail joined)
  | case4 hi lo rest single half =>
    rw [join?, if_neg single, if_pos half] at joined
    cases joined
  | case5 hi lo rest single whole ih =>
    rw [join?, if_neg single, if_neg whole, Option.map_eq_some_iff] at joined
    obtain ⟨t, joined, rfl⟩ := joined
    exact .of_unit (bounded hi List.mem_cons_self) whole (ih bounded.tail joined)
  | case6 n rest other half =>
    rw [join?.eq_4 n rest other, if_pos half] at joined
    cases joined
  | case7 n rest other whole ih =>
    rw [join?.eq_4 n rest other, if_neg whole, Option.map_eq_some_iff] at joined
    obtain ⟨t, joined, rfl⟩ := joined
    exact .of_unit (bounded n List.mem_cons_self) whole (ih bounded.tail joined)

theorem join?_eq_some_iff {pieces : List Piece} {t : List Char} (bounded : Bounded pieces) :
    join? pieces = some t ↔ Stand pieces t :=
  ⟨stand_of_join bounded, Stand.join⟩

/-! ### Units of 16 bits -/

theorem digit?_lt {c : Char} {n : Nat} (digit : Hex.digit? c = some n) : n < 16 := by
  have toNat_le : ∀ {a b : Char}, a ≤ b → a.toNat ≤ b.toNat := fun h => h
  have nine : '9'.toNat = 57 := rfl
  have lowerF : 'f'.toNat = 102 := rfl
  have upperF : 'F'.toNat = 70 := rfl
  unfold Hex.digit? at digit
  split at digit
  · next decimal =>
    have := toNat_le decimal.2
    cases digit
    omega
  split at digit
  · next lower =>
    have := toNat_le lower.2
    cases digit
    omega
  split at digit
  · next upper =>
    have := toNat_le upper.2
    cases digit
    omega
  · cases digit

/-- Four hexadecimal digits spell a unit. -/
theorem value?_lt {a b c d : Char} {n : Nat} (value : Hex.value? [a, b, c, d] = some n) :
    n < 0x10000 := by
  simp only [Hex.value?, List.foldlM_cons, List.foldlM_nil, Option.bind_eq_bind,
    Option.bind_eq_some_iff, Option.map_eq_some_iff, Option.pure_def, Option.some.injEq] at value
  obtain ⟨_, ⟨n₁, first, rfl⟩, _, ⟨n₂, second, rfl⟩, _, ⟨n₃, third, rfl⟩, _, ⟨n₄, fourth, rfl⟩,
    rfl⟩ := value
  have := digit?_lt first
  have := digit?_lt second
  have := digit?_lt third
  have := digit?_lt fourth
  omega

theorem Inside.bounded {t : List Char} {pieces : List Piece} (inside : Inside t pieces) :
    Bounded pieces := by
  induction inside with
  | nil => exact fun n absent => nomatch absent
  | plain _ _ _ _ ih => exact ih.cons fun n same => nomatch same
  | short _ _ ih => exact ih.cons fun n same => nomatch same
  | numbered value _ ih => exact ih.cons fun n same => Piece.unit.inj same ▸ value?_lt value

/-! ### Texts in quotes -/

/-- A text in quotes, and what it says; it says nothing if a half of a pair is left over. -/
inductive Quotes : List Char → Option (List Char) → Prop
  | text {inside pieces t} (written : Inside inside pieces) (stand : Stand pieces t) :
    Quotes ('"' :: (inside ++ ['"'])) (some t)
  | half {inside pieces} (written : Inside inside pieces) (senseless : ∀ t, ¬Stand pieces t) :
    Quotes ('"' :: (inside ++ ['"'])) none

theorem Inside.quotes {t : List Char} {pieces : List Piece} (inside : Inside t pieces) :
    Quotes ('"' :: (t ++ ['"'])) (join? pieces) := by
  cases joined : join? pieces with
  | some text => exact .text inside ((join?_eq_some_iff inside.bounded).1 joined)
  | none =>
    refine .half inside fun text stand => ?_
    rw [stand.join] at joined
    cases joined

theorem Quotes.exists_inside {t : List Char} {said : Option (List Char)} (quotes : Quotes t said) :
    ∃ inside pieces, t = '"' :: (inside ++ ['"']) ∧ Inside inside pieces ∧
      join? pieces = said := by
  cases quotes with
  | text written stand => exact ⟨_, _, rfl, written, stand.join⟩
  | half written senseless =>
    refine ⟨_, _, rfl, written, ?_⟩
    rw [Option.eq_none_iff_forall_ne_some]
    exact fun text joined => senseless text ((join?_eq_some_iff written.bounded).1 joined)

end ScaleWatch.Json
