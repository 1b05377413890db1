import Mathlib.Data.List.Basic
import ScaleWatch.Ingest
import ScaleWatch.Proofs.Wire.Events

/-!
# The lines of a text

An input that is text is read to its end, and line by line: the events that it holds are those that
its lines hold, whichever way it was put together from lines, and whether its last line is ended or
not.
-/

namespace ScaleWatch

namespace Text.Utf8

theorem encode_eq (t : List Char) : encode t = t.flatMap String.utf8EncodeChar := by
  simp [encode, List.utf8Encode]

theorem encode_append (t t' : List Char) : encode (t ++ t') = encode t ++ encode t' := by
  rw [encode_eq, encode_eq, encode_eq, List.flatMap_append]

theorem encode_eq_nil_iff {t : List Char} : encode t = [] ↔ t = [] := by
  constructor
  · intro empty
    have read := decode?_encode t
    rw [empty, show ([] : List UInt8) = encode [] by simp [encode_eq], decode?_encode] at read
    exact (Option.some.inj read).symm
  · rintro rfl
    simp [encode_eq]

theorem encode_feed : encode ['\n'] = [0x0A] := by
  rw [encode_eq]
  rfl

/-- Only the line feed itself has its octet in its encoding. -/
theorem feed_not_mem_encodeChar {c : Char} (other : c ≠ '\n') :
    (0x0A : UInt8) ∉ String.utf8EncodeChar c := by
  have ne : c.toNat ≠ 10 := fun same => other (Char.toNat_inj.1 same)
  have value : c.val.toNat = c.toNat := rfl
  unfold String.utf8EncodeChar
  simp only [value]
  split_ifs <;> simp [← UInt8.toNat_inj] <;> omega

theorem feed_not_mem_encode {t : List Char} (none_inside : '\n' ∉ t) :
    (0x0A : UInt8) ∉ encode t := by
  rw [encode_eq, List.mem_flatMap]
  rintro ⟨c, inside, feed⟩
  refine feed_not_mem_encodeChar ?_ feed
  rintro rfl
  exact none_inside inside

end Text.Utf8

namespace Ingest

open Text

/-! ### Lines -/

/-- The lines of a text with the line feeds that end them, if it is put together from these. -/
def terminated : List (List Char) → List (List Char)
  | [] => []
  | [t] => if t = [] then [] else [t]
  | t :: t' :: more => (t ++ ['\n']) :: terminated (t' :: more)

theorem lines_terminated {line : List UInt8} (none_inside : 0x0A ∉ line) (rest : List UInt8) :
    lines (line ++ 0x0A :: rest) = (line ++ [0x0A]) :: lines rest := by
  induction line with
  | nil => rw [List.nil_append, lines, if_pos rfl, List.nil_append]
  | cons b line ih =>
    obtain ⟨other, none_left⟩ := not_or.1 (fun h => none_inside (List.mem_cons.2 h))
    rw [List.cons_append, lines, if_neg (Ne.symm other), ih none_left, List.cons_append]

theorem lines_unterminated {line : List UInt8} (none_inside : 0x0A ∉ line) (ne : line ≠ []) :
    lines line = [line] := by
  induction line with
  | nil => exact absurd rfl ne
  | cons b line ih =>
    obtain ⟨other, none_left⟩ := not_or.1 (fun h => none_inside (List.mem_cons.2 h))
    rw [lines, if_neg (Ne.symm other)]
    rcases line with _ | ⟨b', line⟩
    · rfl
    · rw [ih none_left (List.cons_ne_nil _ _)]

theorem lines_encode {texts : List (List Char)} (whole : ∀ t ∈ texts, '\n' ∉ t) :
    lines (Utf8.encode (['\n'].intercalate texts)) = (terminated texts).map Utf8.encode := by
  induction texts with
  | nil => rfl
  | cons t texts ih =>
    have here := Utf8.feed_not_mem_encode (whole t List.mem_cons_self)
    have later := ih fun t' inside => whole t' (List.mem_cons_of_mem _ inside)
    rcases texts with _ | ⟨t', more⟩
    · rw [List.intercalate_singleton, terminated]
      split
      · next empty =>
        rw [Utf8.encode_eq_nil_iff.2 empty]
        rfl
      · next ne => exact lines_unterminated here fun empty => ne (Utf8.encode_eq_nil_iff.1 empty)
    · rw [List.intercalate_cons_cons, Utf8.encode_append, Utf8.encode_append, Utf8.encode_feed,
        List.append_assoc, List.singleton_append, lines_terminated here, later, terminated,
        List.map_cons, Utf8.encode_append, Utf8.encode_feed]

theorem flatten_lines (input : List UInt8) : (lines input).flatten = input := by
  induction input with
  | nil => rfl
  | cons b rest ih =>
    rw [lines]
    split
    · rw [List.flatten_cons, ih, List.singleton_append]
    · rcases split : lines rest with _ | ⟨line, more⟩
      · rw [split] at ih
        rw [← ih]
        rfl
      · rw [split] at ih
        rw [← ih]
        rfl

/-! ### Text is read to its end -/

theorem readable_encode (texts : List (List Char)) : readable (texts.map Utf8.encode) = texts := by
  induction texts with
  | nil => rfl
  | cons t more ih => rw [List.map_cons, readable, Utf8.decode?_encode, ih]

theorem octetsRead_encode (texts : List (List Char)) :
    octetsRead (texts.map Utf8.encode) = (texts.map Utf8.encode).flatten.length := by
  induction texts with
  | nil => rfl
  | cons t more ih =>
    rw [List.map_cons, octetsRead, Utf8.decode?_encode, ih, List.flatten_cons, List.length_append]

/-! ### Events on lines -/

theorem eventOf?_concat {c : Char} (blank : isBlank c = true) (t : List Char) :
    eventOf? (t ++ [c]) = eventOf? t := by
  rw [eventOf?, trim_concat blank, eventOf?]

theorem eventOf?_toJson (e : Event) : eventOf? e.toJson.chars = some e := by
  have whole : trim e.toJson.chars = e.toJson.chars := by
    rw [Event.toJson, Json.chars]
    refine trim_of_ends (fun c first => ?_) fun c last => ?_
    · cases first
      rfl
    · rw [← List.cons_append, List.getLast?_concat] at last
      cases last
      rfl
  rw [eventOf?, whole, Event.ofJsonText_chars]
  rfl

theorem filterMap_terminated (texts : List (List Char)) :
    (terminated texts).filterMap eventOf? = texts.filterMap eventOf? := by
  induction texts with
  | nil => rfl
  | cons t texts ih =>
    rcases texts with _ | ⟨t', more⟩
    · rw [terminated]
      split
      · next empty =>
        subst empty
        rfl
      · rfl
    · rw [terminated, List.filterMap_cons, List.filterMap_cons, eventOf?_concat (by decide), ih]

/-- An input that is text holds the events that its lines hold, and all of it is read. -/
theorem events_encode {texts : List (List Char)} (whole : ∀ t ∈ texts, '\n' ∉ t) :
    events (Utf8.encode (['\n'].intercalate texts)) = texts.filterMap eventOf? ∧
      octetsRead (lines (Utf8.encode (['\n'].intercalate texts))) =
        (Utf8.encode (['\n'].intercalate texts)).length := by
  have split := lines_encode whole
  constructor
  · rw [events, split, readable_encode, filterMap_terminated]
  · rw [split, octetsRead_encode, ← split, flatten_lines]

end Ingest

end ScaleWatch
