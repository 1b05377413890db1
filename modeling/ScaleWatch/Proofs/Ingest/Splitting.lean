import ScaleWatch.Proofs.Ingest.Lines

/-!
# Which lines are read

The lines of an input are its pieces when it is split behind each line feed and nowhere else
(`isSplit_iff`).  Those before the first that is no text are taken as they are, that one is read and
taken for nothing, and what is behind it is not read (`eq_readable_append`).  A line is an event if
what is left of it without the blanks around it is one (`eventOf?_between`).

A text whose last line is ended can be read first and what follows it afterwards: the octets read
and the events are those of the two together (`octetsRead_lines_append`, `events_append`).
-/

namespace ScaleWatch

namespace Text.Utf8

theorem decode?_eq_some_iff {octets : List UInt8} {t : List Char} :
    decode? octets = some t ↔ octets = encode t := by
  constructor
  · intro read
    rw [decode?, Option.map_eq_some_iff] at read
    obtain ⟨s, valid, rfl⟩ := read
    rw [String.fromUTF8?] at valid
    split at valid
    · cases valid
      rw [encode, String.ofList_toList]
      rfl
    · cases valid
  · rintro rfl
    exact decode?_encode t

theorem decode?_eq_none_iff {octets : List UInt8} :
    decode? octets = none ↔ ∀ t, octets ≠ encode t := by
  rw [Option.eq_none_iff_forall_ne_some]
  exact forall_congr' fun t => not_congr decode?_eq_some_iff

theorem encode_concat_feed (t : List Char) : encode (t ++ ['\n']) = encode t ++ [0x0A] := by
  rw [encode_append, encode_feed]

end Text.Utf8

namespace Ingest

open Text

/-! ### Splitting -/

/-- An input is split behind each line feed; what is behind the last one is a piece, too, unless
nothing is. -/
inductive IsSplit : List UInt8 → List (List UInt8) → Prop where
  | empty : IsSplit [] []
  | last {line : List UInt8} (none_inside : 0x0A ∉ line) (ne : line ≠ []) : IsSplit line [line]
  | ended {line rest : List UInt8} {pieces : List (List UInt8)} (none_inside : 0x0A ∉ line)
      (later : IsSplit rest pieces) : IsSplit (line ++ 0x0A :: rest) ((line ++ [0x0A]) :: pieces)

theorem IsSplit.eq_lines {input : List UInt8} {pieces : List (List UInt8)}
    (split : IsSplit input pieces) : pieces = lines input := by
  induction split with
  | empty => rfl
  | last none_inside ne => rw [lines_unterminated none_inside ne]
  | ended none_inside _ ih => rw [lines_terminated none_inside, ih]

/-- Induction along lines: on one that no `feed` ends, and on one with what is behind its `feed`. -/
@[elab_as_elim]
theorem line_induction {α : Type} (feed : α) {motive : List α → Prop}
    (last : ∀ line, feed ∉ line → motive line)
    (ended : ∀ line rest, feed ∉ line → motive rest → motive (line ++ feed :: rest))
    (l : List α) : motive l := by
  by_cases inside : feed ∈ l
  · obtain ⟨line, rest, rfl, none_inside⟩ := List.eq_append_cons_of_mem inside
    exact ended line rest none_inside (line_induction feed last ended rest)
  · exact last l inside
termination_by l.length

theorem isSplit_lines (input : List UInt8) : IsSplit input (lines input) := by
  induction input using line_induction (0x0A : UInt8) with
  | last line none_inside =>
    rcases eq_or_ne line [] with rfl | ne
    · exact .empty
    · rw [lines_unterminated none_inside ne]
      exact .last none_inside ne
  | ended line rest none_inside ih =>
    rw [lines_terminated none_inside]
    exact .ended none_inside ih

theorem isSplit_iff {input : List UInt8} {pieces : List (List UInt8)} :
    IsSplit input pieces ↔ pieces = lines input :=
  ⟨IsSplit.eq_lines, fun same => same ▸ isSplit_lines input⟩

/-! ### What is read of the pieces -/

variable (texts : List (List Char)) (pieces : List (List UInt8))

theorem readable_append :
    readable (texts.map Utf8.encode ++ pieces) = texts ++ readable pieces := by
  induction texts with
  | nil => rfl
  | cons t texts ih =>
    rw [List.map_cons, List.cons_append, readable, Utf8.decode?_encode, ih, List.cons_append]

theorem octetsRead_append :
    octetsRead (texts.map Utf8.encode ++ pieces) =
      octetsRead (texts.map Utf8.encode) + octetsRead pieces := by
  induction texts with
  | nil => simp [octetsRead]
  | cons t texts ih =>
    rw [List.map_cons, List.cons_append, octetsRead, octetsRead, Utf8.decode?_encode, ih,
      Nat.add_assoc]

/-- Pieces are the texts that are read and, if these are not all, one that is no text and is the
last to be read, and others. -/
theorem eq_readable_append :
    ∃ unread, pieces = (readable pieces).map Utf8.encode ++ unread ∧
      (∀ piece ∈ unread.head?, ∀ t, piece ≠ Utf8.encode t) ∧
      octetsRead pieces =
        ((readable pieces).map Utf8.encode ++ unread.head?.toList).flatten.length := by
  induction pieces with
  | nil => exact ⟨[], rfl, by simp, rfl⟩
  | cons piece pieces ih =>
    rcases read : Utf8.decode? piece with _ | t
    · refine ⟨piece :: pieces, ?_, ?_, ?_⟩
      · rw [readable, read]
        rfl
      · rintro piece' ⟨⟩
        exact Utf8.decode?_eq_none_iff.1 read
      · rw [octetsRead, readable, read]
        simp
    · obtain ⟨unread, split, no_text, octets⟩ := ih
      have first := Utf8.decode?_eq_some_iff.1 read
      refine ⟨unread, ?_, no_text, ?_⟩
      · rw [readable, read]
        simp only [List.map_cons, List.cons_append]
        rw [← split, first]
      · rw [octetsRead, readable, read]
        simp only [List.map_cons, List.cons_append, List.flatten_cons, List.length_append]
        rw [octets, first]

/-- Only what stands between the blanks of a line matters. -/
theorem eventOf?_between {before after : List Char}
    (blank : ∀ c ∈ before ++ after, isBlank c = true) {t : List Char}
    (first : ∀ c ∈ t.head?, isBlank c = false)
    (last : ∀ c ∈ t.getLast?, isBlank c = false) :
    eventOf? (before ++ t ++ after) = (Event.ofJsonText t).toOption := by
  rw [eventOf?, trim_blanks blank, trim_of_ends first last]

theorem eventOf?_of_blank {line : List Char} (blank : ∀ c ∈ line, isBlank c = true) :
    eventOf? line = none := by
  have all_blank : ∀ c ∈ line ++ [], isBlank c = true := by simpa using blank
  have nothing := eventOf?_between all_blank (t := []) nofun nofun
  rw [List.append_nil, List.append_nil] at nothing
  exact nothing.trans rfl

/-! ### One input after the other -/

/-- The lines of a text are texts. -/
theorem exists_lines_encode (t : List Char) :
    ∃ texts : List (List Char), lines (Utf8.encode t) = texts.map Utf8.encode := by
  induction t using line_induction '\n' with
  | last line none_inside =>
    rcases eq_or_ne line [] with rfl | ne
    · exact ⟨[], rfl⟩
    · exact ⟨[line], lines_unterminated (Utf8.feed_not_mem_encode none_inside)
        fun empty => ne (Utf8.encode_eq_nil_iff.1 empty)⟩
  | ended line rest none_inside ih =>
    obtain ⟨texts, later⟩ := ih
    have first : Utf8.encode (line ++ '\n' :: rest) =
        Utf8.encode line ++ 0x0A :: Utf8.encode rest := by
      rw [← List.singleton_append, Utf8.encode_append, Utf8.encode_append, Utf8.encode_feed]
      rfl
    refine ⟨(line ++ ['\n']) :: texts, ?_⟩
    rw [first, lines_terminated (Utf8.feed_not_mem_encode none_inside), later, List.map_cons,
      Utf8.encode_concat_feed]

theorem IsSplit.lines_append {first : List UInt8} {pieces : List (List UInt8)}
    (split : IsSplit first pieces) (ended : first = [] ∨ first.getLast? = some 0x0A)
    (second : List UInt8) : lines (first ++ second) = pieces ++ lines second := by
  induction split with
  | empty => rfl
  | last none_inside ne => exact absurd (List.mem_of_getLast? (ended.resolve_left ne)) none_inside
  | @ended line rest pieces none_inside _ ih =>
    have rest_ended : rest = [] ∨ rest.getLast? = some 0x0A := by
      rcases eq_or_ne rest [] with empty | ne
      · exact .inl empty
      · obtain ⟨b, rest, rfl⟩ := List.exists_cons_of_ne_nil ne
        simpa using ended
    rw [List.append_assoc, List.cons_append, lines_terminated none_inside, ih rest_ended,
      List.cons_append]

section Ended

variable {t : List Char} (ended : t = [] ∨ t.getLast? = some '\n') (rest : List UInt8)

include ended

/-- Behind a text whose last line is ended a new line begins. -/
theorem exists_lines_append : ∃ texts : List (List Char),
    lines (Utf8.encode t) = texts.map Utf8.encode ∧
      lines (Utf8.encode t ++ rest) = texts.map Utf8.encode ++ lines rest := by
  have encoded_ended : Utf8.encode t = [] ∨ (Utf8.encode t).getLast? = some 0x0A := by
    refine ended.imp Utf8.encode_eq_nil_iff.2 fun last => ?_
    obtain ⟨body, rfl⟩ := List.getLast?_eq_some_iff.1 last
    rw [Utf8.encode_concat_feed, List.getLast?_concat]
  obtain ⟨texts, split⟩ := exists_lines_encode t
  refine ⟨texts, split, ?_⟩
  rw [(isSplit_lines _).lines_append encoded_ended, split]

theorem octetsRead_lines_append :
    octetsRead (lines (Utf8.encode t ++ rest)) =
      octetsRead (lines (Utf8.encode t)) + octetsRead (lines rest) := by
  obtain ⟨texts, split, all⟩ := exists_lines_append ended rest
  rw [all, split, octetsRead_append]

theorem events_append :
    events (Utf8.encode t ++ rest) = events (Utf8.encode t) ++ events rest := by
  obtain ⟨texts, split, all⟩ := exists_lines_append ended rest
  rw [events, events, events, all, split, readable_append, readable_encode,
    List.filterMap_append]

end Ended

end Ingest

end ScaleWatch
