import ScaleWatch.Json
import ScaleWatch.Proofs.Json.Reading

/-!
# JSON texts that are written are read

What `Json.chars` writes spells the outline of the value that was written (`spells_chars`), so
`Outline.read` reads it to its end.  What is written takes one line.
-/

namespace ScaleWatch.Json

open Text Outline

/-! ### Quoted texts -/

theorem value?_lower4 : ∀ n < 0x20,
    (Hex.lower4 n).length = 4 ∧ Hex.value? (Hex.lower4 n) = some n := by
  decide +kernel

theorem lower4_eq {n : Nat} (control : n < 0x20) :
    ∃ a b c d, Hex.lower4 n = [a, b, c, d] ∧ Hex.value? [a, b, c, d] = some n := by
  obtain ⟨four, value⟩ := value?_lower4 n control
  obtain ⟨a, b, c, d, written⟩ := List.length_eq_four.1 four
  exact ⟨a, b, c, d, written, written ▸ value⟩

/-- A character is escaped in short or by its number, or it stands for itself. -/
theorem escape_cases (c : Char) :
    (∃ e, escape c = ['\\', e] ∧ shortEscape? e = some c) ∨
      c.toNat < 0x20 ∧ escape c = '\\' :: 'u' :: Hex.lower4 c.toNat ∨
      c ≠ '"' ∧ c ≠ '\\' ∧ 0x20 ≤ c.toNat ∧ escape c = [c] := by
  unfold escape
  split_ifs with quote backslash feed return_ tab back form control
  · exact .inl ⟨'"', rfl, congrArg some quote.symm⟩
  · exact .inl ⟨'\\', rfl, congrArg some backslash.symm⟩
  · exact .inl ⟨'n', rfl, congrArg some feed.symm⟩
  · exact .inl ⟨'r', rfl, congrArg some return_.symm⟩
  · exact .inl ⟨'t', rfl, congrArg some tab.symm⟩
  · exact .inl ⟨'b', rfl, congrArg some back.symm⟩
  · exact .inl ⟨'f', rfl, congrArg some form.symm⟩
  · exact .inr (.inl ⟨control, rfl⟩)
  · exact .inr (.inr ⟨quote, backslash, Nat.not_lt.1 control, rfl⟩)

/-- What is written for a text is inside quotes, and it stands for the text. -/
theorem inside_escape (t : List Char) :
    ∃ pieces, Inside (t.flatMap escape) pieces ∧ Stand pieces t := by
  induction t with
  | nil => exact ⟨[], .nil, .nil⟩
  | cons c t ih =>
    obtain ⟨pieces, inside, stand⟩ := ih
    rw [List.flatMap_cons]
    rcases escape_cases c with ⟨e, written, letter⟩ | ⟨control, written⟩ |
      ⟨quote, backslash, printable, written⟩
    · rw [written]
      exact ⟨_, .short letter inside, .char stand⟩
    · obtain ⟨a, b, c', d, digits, value⟩ := lower4_eq control
      rw [written, digits]
      exact ⟨_, .numbered value inside, .unit (by omega) stand⟩
    · rw [written]
      exact ⟨_, .plain quote backslash printable inside, .char stand⟩

theorem quotes_quote (t : List Char) : Quotes (quote t) (some t) := by
  obtain ⟨pieces, inside, stand⟩ := inside_escape t
  exact .text inside stand

/-! ### Numbers -/

/-- What is read of the numeral of a number. -/
def Literal.ofNat (n : Nat) : Literal :=
  ⟨some n, (Scaled.ofDigits (Numeral.digits n) [] 0).isFinite⟩

/-- The number in its own numeral. -/
def Number.ofNat (n : Nat) : Number where
  minus := false
  whole := ⟨Numeral.digits n, Nat.toDigits_ne_nil, fun _ => Numeral.isDigit_of_mem_digits⟩
  shortest := Numeral.length_digits_of_head?_zero
  fraction? := none
  exponent? := none

theorem Number.chars_ofNat (n : Nat) : (ofNat n).chars = Numeral.digits n :=
  List.append_nil (Numeral.digits n)

theorem Number.literal_ofNat (n : Nat) : (ofNat n).literal = Literal.ofNat n := by
  have value : Nat.ofDigitChars 10 (Numeral.digits n) 0 = n :=
    Nat.ofDigitChars_toDigits (by decide) (by decide)
  show (⟨some (Nat.ofDigitChars 10 (Numeral.digits n) 0), _⟩ : Literal) = _
  rw [value]
  rfl

/-! ### Outlines -/

mutual

/-- What is read of the text of a value. -/
def outline : Json → Outline
  | null => .null
  | bool b => .bool b
  | number n => .number (.ofNat n)
  | string t => .string (some t)
  | array items => .array (outlineItems items) true
  | object members => .object (outlineMembers members) true

def outlineItems : List Json → List Outline
  | [] => []
  | v :: rest => outline v :: outlineItems rest

def outlineMembers : List (String × Json) → List (Option (List Char) × Outline)
  | [] => []
  | (name, v) :: rest => (some name.toList, outline v) :: outlineMembers rest

end

theorem outlineItems_eq_map (items : List Json) : outlineItems items = items.map outline := by
  induction items with
  | nil => rfl
  | cons v rest ih => rw [outlineItems, ih, List.map_cons]

theorem outlineMembers_eq_map (members : List (String × Json)) :
    outlineMembers members = members.map fun m => (some m.1.toList, outline m.2) := by
  induction members with
  | nil => rfl
  | cons m rest ih => rw [outlineMembers, ih, List.map_cons]

/-! ### Values -/

/-- A text without white space around it. -/
def Padded.bare (t : List Char) : Padded where
  before := []
  chars := t
  after := []
  space_before := space_nil
  space_after := space_nil

theorem text_bare (t : List Char) : (Padded.bare t).text = t :=
  List.append_nil t

def item (v : Json) : Item :=
  ⟨Padded.bare v.chars, v.outline⟩

def entry (m : String × Json) : Entry where
  toItem := item m.2
  label := Padded.bare (quote m.1.toList)
  name := some m.1.toList
  named := quotes_quote m.1.toList

theorem text_item (v : Json) : (item v).text = v.chars :=
  text_bare v.chars

theorem text_entry (m : String × Json) : (entry m).text = quote m.1.toList ++ ':' :: m.2.chars := by
  show (Padded.bare _).text ++ ':' :: (item m.2).text = _
  rw [text_bare, text_item]

theorem itemChars_eq_listed (items : List Json) :
    itemChars items = listed ((items.map item).map Item.text) := by
  induction items with
  | nil => rfl
  | cons v rest ih =>
    rw [List.map_cons, List.map_cons, text_item]
    cases rest with
    | nil => rw [itemChars, List.map_nil, List.map_nil, listed_singleton]
    | cons w more => rw [itemChars, ih, listed_cons (by simp)]

theorem memberChars_eq_listed (members : List (String × Json)) :
    memberChars members = listed ((members.map entry).map Entry.text) := by
  induction members with
  | nil => rfl
  | cons m rest ih =>
    rw [List.map_cons, List.map_cons, text_entry]
    cases rest with
    | nil => rw [memberChars, List.map_nil, List.map_nil, listed_singleton]
    | cons m' more => rw [memberChars, ih, listed_cons (by simp)]

theorem spells_array {items : List Json} (each : ∀ v ∈ items, Spells v.chars v.outline) :
    Spells (array items).chars (array items).outline := by
  rw [chars, outline, itemChars_eq_listed, outlineItems_eq_map]
  by_cases empty : items = []
  · rw [empty]
    exact .emptyArray space_nil
  · have values : items.map outline = (items.map item).map Item.value := by
      rw [List.map_map]
      rfl
    rw [values]
    exact .array (mt List.map_eq_nil_iff.1 empty) (List.forall_mem_map.2 each)

theorem spells_object {members : List (String × Json)}
    (each : ∀ m ∈ members, Spells m.2.chars m.2.outline) :
    Spells (object members).chars (object members).outline := by
  rw [chars, outline, memberChars_eq_listed, outlineMembers_eq_map]
  by_cases empty : members = []
  · rw [empty]
    exact .emptyObject space_nil
  · have values : members.map (fun m => (some m.1.toList, outline m.2)) =
        (members.map entry).map Entry.member := by
      rw [List.map_map]
      rfl
    rw [values]
    exact .object (mt List.map_eq_nil_iff.1 empty) (List.forall_mem_map.2 each)

mutual

/-- What is written spells the value. -/
theorem spells_chars : ∀ v : Json, Spells v.chars v.outline
  | .null => .null
  | .bool true => .yes
  | .bool false => .no
  | .number n => by
    rw [chars, outline, ← Number.chars_ofNat, ← Number.literal_ofNat]
    exact .number _
  | .string t => .string (quotes_quote t)
  | .array items => spells_array (spells_items items)
  | .object members => spells_object (spells_members members)

theorem spells_items : ∀ items : List Json, ∀ v ∈ items, Spells v.chars v.outline
  | [] => List.forall_mem_nil _
  | v :: rest => List.forall_mem_cons.2 ⟨spells_chars v, spells_items rest⟩

theorem spells_members :
    ∀ members : List (String × Json), ∀ m ∈ members, Spells m.2.chars m.2.outline
  | [] => List.forall_mem_nil _
  | (_, v) :: rest => List.forall_mem_cons.2 ⟨spells_chars v, spells_members rest⟩

end

/-- What is written is read, to its end. -/
theorem read_chars (v : Json) : Outline.read v.chars = (v.outline, some []) := by
  have read := (spells_chars v).reads space_nil endsNumeral_nil
    (Nat.le_add_right (2 * v.chars.length) 2)
  rwa [List.nil_append, List.append_nil] at read

theorem decode_chars {α : Type} (shape : Shape α) (v : Json) :
    shape.decode v.chars = shape v.outline := by
  rw [Shape.decode, read_chars]
  simp only
  cases shape v.outline <;> rfl

/-! ### One line -/

theorem feed_not_mem_lower4 : ∀ n < 0x20, '\n' ∉ Hex.lower4 n := by
  decide +kernel

theorem feed_not_mem_escape (c : Char) : '\n' ∉ escape c := by
  rcases escape_cases c with ⟨e, written, short⟩ | ⟨control, written⟩ |
    ⟨-, -, printable, written⟩
  · rw [written]
    intro feed
    simp only [List.mem_cons, List.not_mem_nil, or_false] at feed
    rcases feed with backslash | rfl
    · cases backslash
    · cases short
  · have digits := feed_not_mem_lower4 c.toNat control
    rw [written]
    simpa using digits
  · rw [written, List.mem_singleton]
    rintro rfl
    exact absurd printable (by decide)

theorem feed_not_mem_quote (t : List Char) : '\n' ∉ quote t := by
  have inside : '\n' ∉ t.flatMap escape := by
    rw [List.mem_flatMap]
    rintro ⟨c, -, feed⟩
    exact feed_not_mem_escape c feed
  simpa [quote] using inside

theorem feed_not_mem_digits (n : Nat) : '\n' ∉ Numeral.digits n := fun feed =>
  absurd (Numeral.isDigit_of_mem_digits feed) (by decide)

mutual

/-- A value is written on one line. -/
theorem feed_not_mem_chars : ∀ v : Json, '\n' ∉ v.chars
  | .null | .bool true | .bool false => by decide
  | .number n => feed_not_mem_digits n
  | .string t => feed_not_mem_quote t
  | .array items => by
    have inside := feed_not_mem_itemChars items
    rw [chars]
    simpa using inside
  | .object members => by
    have inside := feed_not_mem_memberChars members
    rw [chars]
    simpa using inside

theorem feed_not_mem_itemChars : ∀ items : List Json, '\n' ∉ itemChars items
  | [] => List.not_mem_nil
  | [v] => feed_not_mem_chars v
  | v :: w :: rest => by
    have here := feed_not_mem_chars v
    have later := feed_not_mem_itemChars (w :: rest)
    rw [itemChars]
    simp [here, later]

theorem feed_not_mem_memberChars : ∀ members : List (String × Json), '\n' ∉ memberChars members
  | [] => List.not_mem_nil
  | [(name, v)] => by
    have named := feed_not_mem_quote name.toList
    have here := feed_not_mem_chars v
    rw [memberChars]
    simp [named, here]
  | (name, v) :: m :: rest => by
    have named := feed_not_mem_quote name.toList
    have here := feed_not_mem_chars v
    have later := feed_not_mem_memberChars (m :: rest)
    rw [memberChars]
    simp [named, here, later]

end

end ScaleWatch.Json
