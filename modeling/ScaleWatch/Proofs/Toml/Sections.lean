import ScaleWatch.Proofs.Toml.Settings
import ScaleWatch.Toml.Document

/-!
# Sections that are written are read

The text of sections is read line by line into the statements that were written, and these build a
table that has the entry of each section, in order.  A line takes one unit of fuel and has at
least one character, so the length of the text is fuel enough (`ReadsAs`).
-/

namespace ScaleWatch.Toml

open Text

/-! ### Names -/

/-- A name that is written without quotes. -/
def IsName (name : List Char) : Prop :=
  name ≠ [] ∧ name.all isBare = true

instance (name : List Char) : Decidable (IsName name) := inferInstanceAs (Decidable (_ ∧ _))

theorem ne_of_isBare {c c' : Char} (bare : isBare c = true) (other : isBare c' = false) :
    c ≠ c' := by
  rintro rfl
  rw [other] at bare
  cases bare

section Lines

variable {name rest t : List Char} {c : Char}

theorem IsName.bare (h : IsName name) : ∀ c ∈ name, isBare c = true :=
  List.all_eq_true.1 h.2

theorem IsName.eq_cons (h : IsName name) :
    ∃ c more, name = c :: more ∧ isBare c = true := by
  obtain ⟨c, more, rfl⟩ := List.exists_cons_of_ne_nil h.1
  exact ⟨c, more, rfl, h.bare c List.mem_cons_self⟩

theorem skipBlanks_cons (visible : isBlank c = false) (t : List Char) :
    skipBlanks (c :: t) = c :: t :=
  List.dropWhile_cons_of_neg (by simp [visible])

theorem not_isBlank_of_isBare (bare : isBare c = true) : isBlank c = false := by
  have space : c ≠ ' ' := ne_of_isBare bare (by decide)
  have tab : c ≠ '\t' := ne_of_isBare bare (by decide)
  simp [isBlank, space, tab]

theorem readName_append (h : IsName name) (ends : isBare c = false) (rest : List Char) :
    readName (name ++ c :: rest) = some (name, c :: rest) := by
  have taken : (name ++ c :: rest).takeWhile isBare = name := by
    rw [List.takeWhile_append_of_pos h.bare, List.takeWhile_cons_of_neg (by simp [ends]),
      List.append_nil]
  have left : (name ++ c :: rest).dropWhile isBare = c :: rest := by
    rw [List.dropWhile_append_of_pos h.bare, List.dropWhile_cons_of_neg (by simp [ends])]
  obtain ⟨first, more, written, bare⟩ := h.eq_cons
  rw [readName.eq_3, taken, left, if_neg h.1]
  · intro t here
    rw [written] at here
    exact ne_of_isBare bare (by decide) (List.cons.inj here).1
  · intro t here
    rw [written] at here
    exact ne_of_isBare bare (by decide) (List.cons.inj here).1

/-- A name without dots is a key, which ends where it is followed by something else. -/
theorem readPath_append {c' : Char} {rest' : List Char} (h : IsName name) (ends : isBare c = false)
    (left : skipBlanks (c :: rest) = c' :: rest') (dot : c' ≠ '.') (limit : Nat) :
    readPath (limit + 1) (name ++ c :: rest) = some (⟨[], name⟩, c' :: rest') := by
  have read := readName_append h ends rest
  obtain ⟨first, more, written, bare⟩ := h.eq_cons
  have begins : skipBlanks (name ++ c :: rest) = name ++ c :: rest := by
    rw [written]
    exact skipBlanks_cons (not_isBlank_of_isBare bare) _
  rw [readPath.eq_2, begins, read]
  simp only [Option.bind_eq_bind, Option.bind_some, left]
  split
  · next here => exact absurd (List.cons.inj here).1 dot
  · rfl

/-! ### Lines -/

/-- A line that begins with something visible is not at its end. -/
theorem afterLine?_cons (visible : c ∉ [' ', '\t', '#', '\n', '\r']) (t : List Char) :
    afterLine? (c :: t) = none := by
  simp only [List.mem_cons, List.not_mem_nil, or_false, not_or] at visible
  obtain ⟨space, tab, comment, feed, return_⟩ := visible
  rw [afterLine?, skipBlanks_cons (by simp [isBlank, space, tab])]
  split
  · next here => cases here
  · next here => exact absurd (List.cons.inj here).1 comment
  · rw [afterNewline?]
    · exact fun _ here => feed (List.cons.inj here).1
    · exact fun _ here => return_ (List.cons.inj here).1

theorem visible_of_isBare (bare : isBare c = true) : c ∉ [' ', '\t', '#', '\n', '\r'] := by
  intro inside
  simp only [List.mem_cons, List.not_mem_nil, or_false] at inside
  rcases inside with rfl | rfl | rfl | rfl | rfl <;> cases bare

theorem readStatement_header (h : IsName name) (rest : List Char) :
    readStatement ('[' :: (name ++ ']' :: rest)) = some (.header ⟨[], name⟩, rest) := by
  have read : readPath maxDepth (name ++ ']' :: rest) = some (⟨[], name⟩, ']' :: rest) :=
    readPath_append h (by decide) (skipBlanks_cons (by decide) rest) (by decide) 78
  obtain ⟨first, more, written, bare⟩ := h.eq_cons
  rw [readStatement.eq_2, read]
  · rfl
  · intro t here
    rw [written] at here
    exact ne_of_isBare bare (by decide) (List.cons.inj here).1

theorem Setting.chars_eq_cons (v : Setting) :
    ∃ c more, v.chars = c :: more ∧ isBlank c = false := by
  match v with
  | .number n =>
    obtain ⟨c, more, written, digit⟩ := Numeral.digits_eq_cons n
    have space : c ≠ ' ' := ne_of_isDigit digit (by decide)
    have tab : c ≠ '\t' := ne_of_isDigit digit (by decide)
    exact ⟨c, more, written, by simp [isBlank, space, tab]⟩
  | .text t =>
    obtain ⟨more, written⟩ := quote_eq_cons t
    exact ⟨'"', more, written, rfl⟩
  | .texts [] => exact ⟨'[', _, rfl, rfl⟩
  | .texts [t] => exact ⟨'[', _, rfl, rfl⟩
  | .texts (t :: t' :: ts) => exact ⟨'[', _, rfl, rfl⟩

/-- The line of a setting, up to its end. -/
def settingChars (x : List Char × Setting) : List Char :=
  x.1 ++ " = ".toList ++ x.2.chars

theorem readStatement_setting {v : Setting} (h : IsName name) (fits : v.Fits) (rest : List Char) :
    readStatement (settingChars (name, v) ++ '\n' :: rest) =
      some (.definition ⟨[], name⟩ v.value, '\n' :: rest) := by
  have line : settingChars (name, v) ++ '\n' :: rest =
      name ++ ' ' :: '=' :: ' ' :: (v.chars ++ '\n' :: rest) := by
    simp [settingChars]
  have key : readPath maxDepth (name ++ ' ' :: '=' :: ' ' :: (v.chars ++ '\n' :: rest)) =
      some (⟨[], name⟩, '=' :: ' ' :: (v.chars ++ '\n' :: rest)) :=
    readPath_append h (by decide) rfl (by decide) 78
  have value : readValue maxDepth (v.chars ++ '\n' :: rest) = some (v.value, '\n' :: rest) :=
    readValue_setting fits rest
  have begins : skipBlanks (' ' :: (v.chars ++ '\n' :: rest)) = v.chars ++ '\n' :: rest := by
    obtain ⟨c, more, written, visible⟩ := v.chars_eq_cons
    rw [written]
    exact skipBlanks_cons visible _
  have equals : expect '=' ('=' :: ' ' :: (v.chars ++ '\n' :: rest)) =
      some (' ' :: (v.chars ++ '\n' :: rest)) := rfl
  obtain ⟨first, more, written, bare⟩ := h.eq_cons
  rw [line, readStatement.eq_3, readPair, key]
  · simp only [Option.bind_eq_bind, Option.bind_some, equals, begins, value]
    rfl
  all_goals
    intro t here
    rw [written] at here
    exact ne_of_isBare bare (by decide) (List.cons.inj here).1

/-! ### Lines one after the other -/

/-- The lines in front of `rest` are read as these statements, whenever there is as much fuel as
there are characters. -/
def ReadsAs (t : List Char) (statements : List Statement) (rest : List Char) : Prop :=
  ∀ fuel, t.length ≤ fuel → ∃ left, rest.length ≤ left ∧
    readStatements fuel t = (readStatements left rest).map (statements ++ ·)

theorem ReadsAs.refl (t : List Char) : ReadsAs t [] t :=
  fun fuel enough => ⟨fuel, enough, by simp⟩

theorem ReadsAs.trans {statements later : List Statement} {rest' : List Char}
    (first : ReadsAs t statements rest) (second : ReadsAs rest later rest') :
    ReadsAs t (statements ++ later) rest' := by
  intro fuel enough
  obtain ⟨left, enough', read⟩ := first fuel enough
  obtain ⟨left', enough'', read'⟩ := second left enough'
  refine ⟨left', enough'', ?_⟩
  rw [read, read', Option.map_map]
  simp [Function.comp_def, List.append_assoc]

theorem readsAs_blank (rest : List Char) : ReadsAs ('\n' :: rest) [] rest := by
  intro fuel enough
  rw [List.length_cons] at enough
  obtain ⟨left, rfl⟩ := Nat.exists_eq_succ_of_ne_zero (Nat.ne_zero_of_lt enough)
  have ended : afterLine? ('\n' :: rest) = some rest := rfl
  refine ⟨left, Nat.le_of_succ_le_succ enough, ?_⟩
  rw [readStatements.eq_3 _ _ (by simp), ended]
  simp

/-- A line that holds a statement takes a unit of fuel, and has a character at least. -/
theorem readsAs_line {s : Statement} {line : List Char} (begins : line.head? = some c)
    (visible : c ∉ [' ', '\t', '#', '\n', '\r'])
    (read : readStatement line = some (s, '\n' :: rest)) (shorter : rest.length < line.length) :
    ReadsAs line [s] rest := by
  intro fuel enough
  obtain ⟨t, rfl⟩ := List.head?_eq_some_iff.1 begins
  have more : rest.length < fuel := Nat.lt_of_lt_of_le shorter enough
  obtain ⟨left, rfl⟩ := Nat.exists_eq_succ_of_ne_zero (Nat.ne_zero_of_lt more)
  have start : skipBlanks (c :: t) = c :: t := by
    simp only [List.mem_cons, not_or] at visible
    exact skipBlanks_cons (by simp [isBlank, visible]) t
  have ended : afterLine? ('\n' :: rest) = some rest := rfl
  refine ⟨left, Nat.le_of_lt_succ more, ?_⟩
  rw [readStatements.eq_3 _ _ (by simp), afterLine?_cons visible, start, read]
  simp only [Option.bind_eq_bind, Option.bind_some, ended]
  cases readStatements left rest <;> rfl

theorem ReadsAs.readStatements {statements : List Statement} (h : ReadsAs t statements []) :
    readStatements t.length t = some statements := by
  obtain ⟨left, -, read⟩ := h t.length (Nat.le_refl _)
  rw [read, readStatements.eq_1, Option.map_some, List.append_nil]

end Lines

/-! ### Sections -/

namespace Section

/-- What the lines of a section say. -/
def statements (s : Section) : List Statement :=
  .header ⟨[], s.name⟩ :: s.settings.map fun x => .definition ⟨[], x.1⟩ x.2.value

/-- The section can be written and read: its names need no quotes and are not used twice. -/
structure Readable (s : Section) : Prop where
  name : IsName s.name
  keys : ∀ key ∈ s.settings.map (·.1), IsName key
  fits : ∀ v ∈ s.settings.map (·.2), v.Fits
  distinct : (s.settings.map (·.1)).Nodup

theorem readsAs_settings {settings : List (List Char × Setting)}
    (readable : ∀ x ∈ settings, IsName x.1 ∧ x.2.Fits) (rest : List Char) :
    ReadsAs ((settings.flatMap fun x => settingChars x ++ ['\n']) ++ rest)
      (settings.map fun x => .definition ⟨[], x.1⟩ x.2.value) rest := by
  induction settings with
  | nil => exact .refl rest
  | cons x settings ih =>
    obtain ⟨⟨isName, fits⟩, later⟩ := List.forall_mem_cons.1 readable
    have read := readStatement_setting isName fits
      ((settings.flatMap fun x => settingChars x ++ ['\n']) ++ rest)
    obtain ⟨c, more, written, bare⟩ := isName.eq_cons
    have begins : (settingChars x).head? = some c := by
      rw [settingChars, written]
      rfl
    rw [List.flatMap_cons, List.append_assoc, List.append_assoc, List.singleton_append,
      List.map_cons, ← List.singleton_append]
    refine (readsAs_line ?_ (visible_of_isBare bare) read ?_).trans (ih later)
    · rw [List.head?_append, begins]
      rfl
    · simp only [List.length_append, List.length_cons]
      omega

theorem readsAs_section {s : Section} (readable : s.Readable) (rest : List Char) :
    ReadsAs (s.chars ++ rest) s.statements rest := by
  have header := readStatement_header readable.name
    ('\n' :: ((s.settings.flatMap fun x => settingChars x ++ ['\n']) ++ rest))
  have written : s.chars ++ rest = '[' :: (s.name ++ ']' :: '\n' ::
      ((s.settings.flatMap fun x => settingChars x ++ ['\n']) ++ rest)) := by
    simp [chars, settingChars]
  rw [written, statements, ← List.singleton_append]
  have settings : ∀ x ∈ s.settings, IsName x.1 ∧ x.2.Fits := fun x inside =>
    ⟨readable.keys _ (List.mem_map_of_mem inside), readable.fits _ (List.mem_map_of_mem inside)⟩
  refine (readsAs_line rfl (by decide) header ?_).trans (readsAs_settings settings rest)
  simp only [List.length_cons, List.length_append]
  omega

theorem readsAs_allChars {sections : List Section} (readable : ∀ s ∈ sections, s.Readable) :
    ReadsAs (allChars sections) (sections.flatMap statements) [] := by
  induction sections with
  | nil => exact .refl []
  | cons s more ih =>
    obtain ⟨first, later⟩ := List.forall_mem_cons.1 readable
    rcases more with _ | ⟨s', more⟩
    · have alone := readsAs_section first []
      rw [List.append_nil] at alone
      rwa [allChars, List.flatMap_cons, List.flatMap_nil, List.append_nil]
    · rw [allChars, List.flatMap_cons]
      · exact (readsAs_section first _).trans ((readsAs_blank _).trans (ih later))
      · simp

end Section

/-! ### Documents -/

section Tables

variable {root inner : Table} {name : List Char} {v : Value}

theorem lookup_eq_none (fresh : name ∉ root.map (·.1)) : root.lookup name = none := by
  rw [List.lookup_eq_none_iff]
  intro p inside
  refine bne_iff_ne.2 fun here => fresh ?_
  exact here ▸ List.mem_map_of_mem inside

theorem lookup_concat (fresh : name ∉ root.map (·.1)) (v : Value) :
    (root ++ [(name, v)]).lookup name = some v := by
  rw [List.lookup_append, lookup_eq_none fresh, Option.none_or, List.lookup_cons_self]

theorem replace_concat (fresh : name ∉ root.map (·.1)) (v v' : Value) :
    Table.replace name v' (root ++ [(name, v)]) = root ++ [(name, v')] := by
  have kept : (root.map fun e => if e.1 = name then (name, v') else e) = root := by
    refine (List.map_congr_left fun e inside => if_neg fun here => fresh ?_).trans root.map_id
    exact here ▸ List.mem_map_of_mem inside
  rw [Table.replace, List.map_append, kept]
  simp

/-- A header opens a table behind the others. -/
theorem add?_header (fresh : name ∉ root.map (·.1)) (place : List (List Char)) :
    Draft.add? ⟨root, place⟩ (.header ⟨[], name⟩) =
      some ⟨root ++ [(name, .table .header [])], [name]⟩ := by
  have opened : root.openTable? ⟨[], name⟩ = some (root ++ [(name, .table .header [])]) := by
    simp only [Table.openTable?, Table.updateAt?, lookup_eq_none fresh]
  rw [Draft.add?, opened]
  rfl

/-- A definition goes to the end of the table that was opened last. -/
theorem add?_definition (fresh : name ∉ root.map (·.1)) {key : List Char}
    (unset : key ∉ inner.map (·.1)) (v : Value) :
    Draft.add? ⟨root ++ [(name, .table .header inner)], [name]⟩ (.definition ⟨[], key⟩ v) =
      some ⟨root ++ [(name, .table .header (inner ++ [(key, v)]))], [name]⟩ := by
  have defined : inner.define? ⟨[], key⟩ v = some (inner ++ [(key, v)]) := by
    simp [Table.define?, Table.updateAt?, lookup_eq_none unset]
  have allowed : (guard (Form.header ≠ .braces ∧ (false = true → Form.header.isOpen)) :
      Option Unit) = some () := rfl
  simp only [Draft.add?, Table.updateAt?, lookup_concat fresh, Option.bind_eq_bind, defined,
    Option.bind_some, replace_concat fresh]
  rfl

/-- The settings of a section fill the table that its header has opened. -/
theorem foldlM_definitions (fresh : name ∉ root.map (·.1))
    (settings : List (List Char × Setting))
    (distinct : (inner.map (·.1) ++ settings.map (·.1)).Nodup) :
    (settings.map fun x => Statement.definition ⟨[], x.1⟩ x.2.value).foldlM Draft.add?
        ⟨root ++ [(name, .table .header inner)], [name]⟩ =
      some ⟨root ++ [(name, .table .header (inner ++ settings.map fun x => (x.1, x.2.value)))],
        [name]⟩ := by
  induction settings generalizing inner with
  | nil => simp
  | cons x settings ih =>
    have unset : x.1 ∉ inner.map (·.1) := fun inside =>
      (List.nodup_append.1 distinct).2.2 x.1 inside x.1 (by simp) rfl
    rw [List.map_cons, List.foldlM_cons, add?_definition fresh unset, Option.bind_eq_bind,
      Option.bind_some, ih]
    · simp
    · simpa using distinct

theorem foldlM_section {s : Section} (fresh : s.name ∉ root.map (·.1)) (readable : s.Readable)
    (place : List (List Char)) :
    s.statements.foldlM Draft.add? ⟨root, place⟩ = some ⟨root ++ [s.entry], [s.name]⟩ := by
  rw [Section.statements, List.foldlM_cons, add?_header fresh, Option.bind_eq_bind,
    Option.bind_some, foldlM_definitions fresh]
  · rfl
  · simpa using readable.distinct

theorem foldlM_sections (root : Table) {sections : List Section}
    (readable : ∀ s ∈ sections, s.Readable)
    (distinct : (root.map (·.1) ++ sections.map (·.name)).Nodup) (place : List (List Char)) :
    ∃ place', (sections.flatMap Section.statements).foldlM Draft.add? ⟨root, place⟩ =
      some ⟨root ++ sections.map Section.entry, place'⟩ := by
  induction sections generalizing root place with
  | nil => exact ⟨place, by simp⟩
  | cons s more ih =>
    obtain ⟨first, later⟩ := List.forall_mem_cons.1 readable
    have fresh : s.name ∉ root.map (·.1) := fun inside =>
      (List.nodup_append.1 distinct).2.2 s.name inside s.name (by simp) rfl
    obtain ⟨place', rest⟩ := ih (root ++ [s.entry]) later
      (by simpa [Section.entry] using distinct) [s.name]
    refine ⟨place', ?_⟩
    rw [List.flatMap_cons, List.foldlM_append, foldlM_section fresh first, Option.bind_eq_bind,
      Option.bind_some, rest, List.append_assoc]
    rfl

end Tables

/-- The text of sections is read as a table with an entry for each of them. -/
theorem read?_allChars {sections : List Section} (readable : ∀ s ∈ sections, s.Readable)
    (distinct : (sections.map (·.name)).Nodup) :
    read? (Section.allChars sections) = some (sections.map Section.entry) := by
  have unmarked : dropMark (Section.allChars sections) = Section.allChars sections := by
    match sections with
    | [] => rfl
    | [s] => rfl
    | s :: s' :: more => rfl
  obtain ⟨place, built⟩ := foldlM_sections [] readable distinct []
  rw [read?, unmarked, (Section.readsAs_allChars readable).readStatements, Option.bind_some,
    Table.ofStatements?, Draft.empty, built]
  rfl

end ScaleWatch.Toml
