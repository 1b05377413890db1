import Mathlib.Data.List.Basic
import ScaleWatch.Metrics.Exposition
import ScaleWatch.Proofs.Key.Spelling

/-!
# The exposition loses nothing

The text of the metrics is made of lines of three sorts, and no line of the format can be taken for
another one: a name ends at the first character that no name has, a label at the quote behind it
(`Line.Valid.eq_of_chars`).  So the lines can be read off the text; the samples of a family can be
read off the lines, since no two families share their name (`collect_of_mem`); and from the samples
of all families the metrics and the keys come back (`text_loses_nothing`).
-/

namespace ScaleWatch.Exposition

open Text

/-! ### Lines of the format -/

/-- A line, taken apart. -/
inductive Line where
  | help (name text : List Char)
  | type (name kind : List Char)
  /-- A sample, with the text in its label if it has one. -/
  | sample (name : List Char) (key : Option (List Char)) (value : List Char)

namespace Line

def labelChars : Option (List Char) → List Char
  | none => []
  | some text => "\x7bkey=\"".toList ++ text ++ "\"\x7d".toList

def chars : Line → List Char
  | help name text => "# HELP ".toList ++ name ++ ' ' :: text
  | type name kind => "# TYPE ".toList ++ name ++ ' ' :: kind
  | sample name key value => name ++ labelChars key ++ ' ' :: value

def isSample : Line → Bool
  | sample _ _ _ => true
  | help _ _ | type _ _ => false

end Line

def isNameChar (c : Char) : Bool :=
  c.isAlphanum || c = '_' || c = ':'

/-- The name of a metric begins with no digit. -/
def isName (t : List Char) : Bool :=
  t.head?.any (fun c => !c.isDigit) && t.all isNameChar

/-- A character that stands for itself between the quotes of a label. -/
def isPlain (c : Char) : Bool :=
  c ≠ '"' && c ≠ '\\' && c ≠ '\n'

/-- The rules of the format: what a line may be made of. -/
inductive Line.Valid : Line → Prop where
  | help {name text : List Char} (named : isName name = true) (single : '\n' ∉ text) :
    Valid (.help name text)
  | type {name kind : List Char} (named : isName name = true)
    (known : kind = "counter".toList ∨ kind = "gauge".toList) : Valid (.type name kind)
  | sample {name value : List Char} {key : Option (List Char)} {n : Nat}
    (named : isName name = true)
    (labelled : ∀ text, key = some text →
      text.all isPlain = true ∧ ∃ k, Key.parse (String.ofList text) = .ok k)
    (decimal : Numeral.value? value = some n) : Valid (.sample name key value)

section Format

variable {name name' : List Char} {c : Char}

theorem not_mem_of_all {p : Char → Bool} {t : List Char} (all : t.all p = true)
    (other : p c = false) : c ∉ t := by
  intro inside
  have holds := List.all_eq_true.1 all c inside
  rw [other] at holds
  cases holds

theorem not_mem_name (named : isName name = true) (other : isNameChar c = false) : c ∉ name :=
  not_mem_of_all (Bool.and_eq_true_iff.1 named).2 other

/-- What two marks end, in which neither occurs, is the same if the whole is. -/
theorem eq_of_append_cons {x x' rest rest' : List Char} {c c' : Char} (free : c' ∉ x)
    (free' : c ∉ x') (same : x ++ c :: rest = x' ++ c' :: rest') :
    x = x' ∧ c = c' ∧ rest = rest' := by
  induction x generalizing x' with
  | nil =>
    cases x' with
    | nil => exact ⟨rfl, List.cons.inj same⟩
    | cons d x' => exact absurd (List.cons.inj same).1 (List.ne_of_not_mem_cons free')
  | cons d x ih =>
    cases x' with
    | nil => exact absurd (List.cons.inj same).1.symm (List.ne_of_not_mem_cons free)
    | cons d' x' =>
      obtain ⟨rfl, left⟩ := List.cons.inj same
      obtain ⟨rfl, ending⟩ := ih (List.not_mem_of_not_mem_cons free)
        (List.not_mem_of_not_mem_cons free') left
      exact ⟨rfl, ending⟩

theorem chars_unlabelled (name value : List Char) :
    Line.chars (.sample name none value) = name ++ ' ' :: value :=
  congrArg (· ++ ' ' :: value) (List.append_nil name)

theorem chars_labelled (name text value : List Char) :
    Line.chars (.sample name (some text) value) =
      name ++ '\x7b' :: ("key=\"".toList ++ (text ++ '"' :: '\x7d' :: ' ' :: value)) := by
  show name ++ ("\x7bkey=\"".toList ++ text ++ ['"', '\x7d']) ++ ' ' :: value = _
  rw [List.append_assoc, List.append_assoc, List.append_assoc]
  rfl

/-- Behind the mark of a comment stands a name, and then anything. -/
theorem eq_of_comment {mark rest rest' : List Char} (named : isName name = true)
    (named' : isName name' = true)
    (same : mark ++ name ++ ' ' :: rest = mark ++ name' ++ ' ' :: rest') :
    name = name' ∧ rest = rest' := by
  have blank : isNameChar ' ' = false := by decide
  rw [List.append_assoc, List.append_assoc, List.append_cancel_left_eq] at same
  obtain ⟨rfl, -, rfl⟩ :=
    eq_of_append_cons (not_mem_name named blank) (not_mem_name named' blank) same
  exact ⟨rfl, rfl⟩

/-- Behind a name stands a blank where there is no label, and a brace where there is one. -/
theorem chars_unlabelled_ne (named : isName name = true) (named' : isName name' = true)
    (text value value' : List Char) :
    Line.chars (.sample name none value) ≠ Line.chars (.sample name' (some text) value') := by
  intro same
  rw [chars_unlabelled, chars_labelled] at same
  have ends := eq_of_append_cons (not_mem_name named (by decide)) (not_mem_name named' (by decide))
    same
  exact absurd ends.2.1 (by decide)

theorem eq_of_sample {key key' : Option (List Char)} {value value' : List Char}
    (named : isName name = true) (named' : isName name' = true)
    (plain : ∀ text, key = some text → text.all isPlain = true)
    (plain' : ∀ text, key' = some text → text.all isPlain = true)
    (same : Line.chars (.sample name key value) = Line.chars (.sample name' key' value')) :
    name = name' ∧ key = key' ∧ value = value' := by
  have blank : isNameChar ' ' = false := by decide
  have brace : isNameChar '\x7b' = false := by decide
  have quote : isPlain '"' = false := by decide
  cases key with
  | none =>
    cases key' with
    | none =>
      rw [chars_unlabelled, chars_unlabelled] at same
      obtain ⟨rfl, -, rfl⟩ :=
        eq_of_append_cons (not_mem_name named blank) (not_mem_name named' blank) same
      exact ⟨rfl, rfl, rfl⟩
    | some text' => exact absurd same (chars_unlabelled_ne named named' _ _ _)
  | some text =>
    cases key' with
    | none => exact absurd same.symm (chars_unlabelled_ne named' named _ _ _)
    | some text' =>
      rw [chars_labelled, chars_labelled] at same
      obtain ⟨rfl, -, label⟩ :=
        eq_of_append_cons (not_mem_name named brace) (not_mem_name named' brace) same
      rw [List.append_cancel_left_eq] at label
      obtain ⟨rfl, -, ending⟩ := eq_of_append_cons (not_mem_of_all (plain text rfl) quote)
        (not_mem_of_all (plain' text' rfl) quote) label
      cases ending
      exact ⟨rfl, rfl, rfl⟩

/-- A sample begins with a name and not with the mark of a comment. -/
theorem ne_comment_of_sample (named : isName name = true) (key : Option (List Char))
    (value rest : List Char) : Line.chars (.sample name key value) ≠ '#' :: rest := by
  intro same
  rcases name with _ | ⟨first, more⟩
  · cases named
  · have hash : first = '#' := (List.cons.inj same).1
    subst hash
    exact not_mem_name named (by decide) List.mem_cons_self

/-- A line of the format can be taken apart in one way only. -/
theorem Line.Valid.eq_of_chars {line line' : Line} (valid : line.Valid) (valid' : line'.Valid)
    (same : line.chars = line'.chars) : line = line' := by
  have marks : ∀ rest rest', "# HELP ".toList ++ rest ≠ "# TYPE ".toList ++ rest' :=
    fun _ _ equal => absurd (congrArg (·[2]?) equal) (by decide : some 'H' ≠ some 'T')
  cases valid with
  | help named single =>
    cases valid' with
    | help named' single' =>
      obtain ⟨rfl, rfl⟩ := eq_of_comment named named' same
      rfl
    | type named' known' => exact absurd same (marks _ _)
    | sample named' labelled' decimal' => exact absurd same.symm (ne_comment_of_sample named' _ _ _)
  | type named known =>
    cases valid' with
    | help named' single' => exact absurd same.symm (marks _ _)
    | type named' known' =>
      obtain ⟨rfl, rfl⟩ := eq_of_comment named named' same
      rfl
    | sample named' labelled' decimal' => exact absurd same.symm (ne_comment_of_sample named' _ _ _)
  | sample named labelled decimal =>
    cases valid' with
    | help named' single' => exact absurd same (ne_comment_of_sample named _ _ _)
    | type named' known' => exact absurd same (ne_comment_of_sample named _ _ _)
    | sample named' labelled' decimal' =>
      obtain ⟨rfl, rfl, rfl⟩ := eq_of_sample named named' (fun text here => (labelled text here).1)
        (fun text here => (labelled' text here).1) same
      rfl

theorem Line.Valid.feed_not_mem {line : Line} (valid : line.Valid) : '\n' ∉ line.chars := by
  have feed : isNameChar '\n' = false := by decide
  cases valid with
  | @help name text named single =>
    show '\n' ∉ "# HELP ".toList ++ name ++ ' ' :: text
    simp only [List.mem_append, List.mem_cons, not_or]
    exact ⟨⟨by decide, not_mem_name named feed⟩, by decide, single⟩
  | @type name kind named known =>
    show '\n' ∉ "# TYPE ".toList ++ name ++ ' ' :: kind
    simp only [List.mem_append, List.mem_cons, not_or]
    refine ⟨⟨by decide, not_mem_name named feed⟩, by decide, ?_⟩
    rcases known with rfl | rfl <;> decide
  | @sample name value key n named labelled decimal =>
    have digits : '\n' ∉ value := fun inside =>
      absurd ((Numeral.value?_eq_some_iff.1 decimal).1.2 _ inside) (by decide)
    cases key with
    | none =>
      rw [chars_unlabelled]
      simp only [List.mem_append, List.mem_cons, not_or]
      exact ⟨not_mem_name named feed, by decide, digits⟩
    | some text =>
      rw [chars_labelled]
      simp only [List.mem_append, List.mem_cons, not_or]
      exact ⟨not_mem_name named feed, by decide, by decide,
        not_mem_of_all (labelled text rfl).1 (by decide), by decide, by decide, by decide, digits⟩

theorem eq_of_map_chars {lines lines' : List Line} (valid : ∀ line ∈ lines, line.Valid)
    (valid' : ∀ line ∈ lines', line.Valid) (same : lines.map Line.chars = lines'.map Line.chars) :
    lines = lines' := by
  induction lines generalizing lines' with
  | nil => exact (List.map_eq_nil_iff.1 same.symm).symm
  | cons line lines ih =>
    cases lines' with
    | nil => cases same
    | cons line' lines' =>
      obtain ⟨first, rest⟩ := List.cons.inj same
      rw [(valid line List.mem_cons_self).eq_of_chars (valid' line' List.mem_cons_self) first,
        ih (fun l inside => valid l (List.mem_cons_of_mem _ inside))
          (fun l inside => valid' l (List.mem_cons_of_mem _ inside)) rest]

end Format

/-! ### The lines of the exposition -/

/-- A sample as it is written. -/
def written (sample : Option Key × Nat) : Option (List Char) × List Char :=
  (sample.1.map Key.chars, Numeral.digits sample.2)

def Family.lines (f : Family) : List Line :=
  .help f.name.toList f.help.toList :: .type f.name.toList f.kind.toList ::
    f.samples.map fun sample => .sample f.name.toList (written sample).1 (written sample).2

/-- What is said of a family before its samples. -/
def Family.heading (f : Family) : String × String × String :=
  (f.name, f.help, f.kind)

def lines (m : Metrics) (keys : List Stats) : List Line :=
  (families m keys).flatMap Family.lines

section Lines

variable (m : Metrics) (keys : List Stats)

theorem sampleLine_eq (name : String) (sample : Option Key × Nat) :
    sampleLine name sample =
      Line.chars (.sample name.toList (written sample).1 (written sample).2) ++ ['\n'] := by
  obtain ⟨_ | k, n⟩ := sample <;> rfl

theorem Family.chars_eq (f : Family) :
    f.chars = f.lines.flatMap fun line => line.chars ++ ['\n'] := by
  have comment (mark rest : String) : (mark ++ f.name ++ " " ++ rest ++ "\n").toList =
      mark.toList ++ f.name.toList ++ ' ' :: rest.toList ++ ['\n'] := by
    simp only [String.toList_append, List.append_assoc]
    rfl
  have samples : f.samples.flatMap (sampleLine f.name) =
      (f.samples.map fun sample =>
        Line.sample f.name.toList (written sample).1 (written sample).2).flatMap
        fun line => line.chars ++ ['\n'] := by
    rw [List.flatMap_map]
    exact congrArg (List.flatMap · _) (funext (sampleLine_eq f.name))
  rw [Family.chars, comment, comment, samples, Family.lines, List.flatMap_cons, List.flatMap_cons]
  exact List.append_assoc _ _ _

theorem chars_eq : chars m keys = (lines m keys).flatMap fun line => line.chars ++ ['\n'] := by
  rw [chars, lines, List.flatMap_assoc]
  exact congrArg (List.flatMap · _) (funext Family.chars_eq)

/-- What is said of a family does not hang on what is in it. -/
theorem headings_families (m' : Metrics) (keys' : List Stats) :
    (families m keys).map Family.heading = (families m' keys').map Family.heading :=
  rfl

theorem nodup_names : ((families m keys).map Family.name).Nodup := by
  show ((families .zero []).map Family.name).Nodup
  decide

theorem all_isPlain (k : Key) : k.chars.all isPlain = true := by
  rw [List.all_eq_true]
  intro c inside
  have other (d : Char) (noDigit : d.isDigit = false) (noLetter : d ∉ "netsport:".toList) :
      c ≠ d := fun same => Key.not_mem_chars noDigit noLetter (same ▸ inside)
  simp [isPlain, other '"' (by decide) (by decide), other '\\' (by decide) (by decide),
    other '\n' (by decide) (by decide)]

theorem valid_heading {f : Family} (inside : f ∈ families m keys) :
    isName f.name.toList = true ∧ '\n' ∉ f.help.toList ∧
      (f.kind = "counter" ∨ f.kind = "gauge") := by
  have checked : ∀ heading ∈ (families .zero []).map Family.heading,
      isName heading.1.toList = true ∧ '\n' ∉ heading.2.1.toList ∧
        (heading.2.2 = "counter" ∨ heading.2.2 = "gauge") := by
    decide +kernel
  rw [← headings_families m keys] at checked
  exact checked f.heading (List.mem_map_of_mem inside)

theorem valid_lines : ∀ line ∈ lines m keys, line.Valid := by
  intro line inside
  obtain ⟨f, family, inside⟩ := List.mem_flatMap.1 inside
  obtain ⟨named, single, known⟩ := valid_heading m keys family
  rcases List.mem_cons.1 inside with rfl | inside
  · exact .help named single
  rcases List.mem_cons.1 inside with rfl | inside
  · exact .type named (known.imp (congrArg String.toList) (congrArg String.toList))
  · obtain ⟨⟨key, n⟩, -, rfl⟩ := List.mem_map.1 inside
    refine .sample named (fun text here => ?_) (Numeral.value?_digits n)
    obtain ⟨k, rfl, rfl⟩ := Option.map_eq_some_iff.1 here
    exact ⟨all_isPlain k, k, k.parse_chars⟩

theorem Family.countP_isSample (f : Family) :
    f.lines.countP Line.isSample = f.samples.length := by
  have samples : (f.samples.map fun sample =>
      Line.sample f.name.toList (written sample).1 (written sample).2).countP Line.isSample =
      f.samples.length := by
    rw [List.countP_map, List.countP_eq_length]
    exact fun _ _ => rfl
  rw [Family.lines, List.countP_cons_of_neg Bool.false_ne_true,
    List.countP_cons_of_neg Bool.false_ne_true, samples]

theorem countP_isSample : (lines m keys).countP Line.isSample = 7 + 3 * keys.length := by
  have each : List.countP Line.isSample ∘ Family.lines = fun f => f.samples.length :=
    funext Family.countP_isSample
  have sizes : (families m keys).map (fun f => f.samples.length) =
      [1, 1, 1, 1, 1, 1, 1, keys.length, keys.length, keys.length] := by
    simp [families, counter, gauge]
  rw [lines, List.countP_flatMap, each, sizes]
  simp only [List.sum_cons, List.sum_nil]
  omega

theorem flatMap_feed (texts : List (List Char)) :
    (texts.flatMap fun t => t ++ ['\n']) = ['\n'].intercalate (texts ++ [[]]) := by
  induction texts with
  | nil => rfl
  | cons t texts ih =>
    rw [List.flatMap_cons, ih, List.cons_append, List.intercalate_cons_of_ne_nil (by simp)]

/-- The text is the lines, each with a line feed at its end. -/
theorem splitOn_chars :
    (chars m keys).splitOn '\n' = (lines m keys).map Line.chars ++ [[]] := by
  have none_inside : ∀ t ∈ (lines m keys).map Line.chars ++ [[]], '\n' ∉ t := by
    intro t inside
    rcases List.mem_append.1 inside with inside | last
    · obtain ⟨line, here, rfl⟩ := List.mem_map.1 inside
      exact (valid_lines m keys line here).feed_not_mem
    · rw [List.mem_singleton.1 last]
      exact List.not_mem_nil
  have joined : chars m keys = ['\n'].intercalate ((lines m keys).map Line.chars ++ [[]]) := by
    rw [chars_eq, ← flatMap_feed, List.flatMap_map]
  rw [joined, List.splitOn_intercalate '\n' none_inside (by simp)]

end Lines

/-! ### What can be read off the lines -/

/-- The samples of a name, each with the text in its label and the text of its value. -/
def collect (name : List Char) (lines : List Line) : List (Option (List Char) × List Char) :=
  lines.filterMap fun
    | .sample name' key value => if name' = name then some (key, value) else none
    | _ => none

section Collect

variable {f : Family} {fs : List Family}

theorem collect_own (f : Family) : collect f.name.toList f.lines = f.samples.map written := by
  show (f.samples.map _).filterMap _ = _
  rw [List.filterMap_map, ← List.filterMap_eq_map]
  exact congrArg (List.filterMap · _) (funext fun sample => if_pos rfl)

theorem collect_other {name : String} (other : f.name ≠ name) :
    collect name.toList f.lines = [] := by
  have differs : f.name.toList ≠ name.toList := fun same => other (String.toList_inj.1 same)
  show (f.samples.map _).filterMap _ = []
  rw [List.filterMap_map, List.filterMap_eq_nil_iff]
  exact fun sample _ => if_neg differs

theorem collect_of_not_mem {name : String} (unnamed : name ∉ fs.map Family.name) :
    collect name.toList (fs.flatMap Family.lines) = [] := by
  rw [collect, List.filterMap_flatMap, List.flatMap_eq_nil_iff]
  exact fun g inside => collect_other fun same => unnamed (same ▸ List.mem_map_of_mem inside)

/-- If every family has a name of its own, its samples are those of its name. -/
theorem collect_of_mem (distinct : (fs.map Family.name).Nodup) (inside : f ∈ fs) :
    collect f.name.toList (fs.flatMap Family.lines) = f.samples.map written := by
  induction fs with
  | nil => cases inside
  | cons g fs ih =>
    rw [List.map_cons, List.nodup_cons] at distinct
    have split : collect f.name.toList ((g :: fs).flatMap Family.lines) =
        collect f.name.toList g.lines ++ collect f.name.toList (fs.flatMap Family.lines) := by
      rw [List.flatMap_cons, collect, List.filterMap_append]
      rfl
    rw [split]
    rcases List.mem_cons.1 inside with rfl | inside
    · rw [collect_own, collect_of_not_mem distinct.1, List.append_nil]
    · have other : g.name ≠ f.name := fun same =>
        distinct.1 (same ▸ List.mem_map_of_mem inside)
      rw [collect_other other, ih distinct.2 inside, List.nil_append]

theorem written_injective : Function.Injective written := by
  rintro ⟨key, n⟩ ⟨key', n'⟩ same
  obtain ⟨keys, values⟩ := Prod.mk.inj same
  have chars_injective : Function.Injective Key.chars := fun k k' equal =>
    Key.text_injective (congrArg String.ofList equal)
  have number : some n = some n' := by
    rw [← Numeral.value?_digits n, ← Numeral.value?_digits n']
    exact congrArg Numeral.value? values
  exact Prod.ext (Option.map_injective chars_injective keys) (Option.some.inj number)

end Collect

section Injective

variable {m m' : Metrics} {keys keys' : List Stats}

theorem samples_of_lines (same : lines m keys = lines m' keys') :
    (families m keys).map Family.samples = (families m' keys').map Family.samples := by
  have gathered (m : Metrics) (keys : List Stats) :
      ((families m keys).map Family.samples).map (List.map written) =
        ((families m keys).map Family.name).map fun name => collect name.toList (lines m keys) := by
    rw [List.map_map, List.map_map]
    exact List.map_congr_left fun f inside => (collect_of_mem (nodup_names m keys) inside).symm
  refine List.map_injective_iff.2 (List.map_injective_iff.2 written_injective) ?_
  rw [gathered, gathered, same]
  rfl

theorem stats_of_gauges
    (counts : keys.map (fun (k, p) => (some k, p.count.toNat)) =
      keys'.map fun (k, p) => (some k, p.count.toNat))
    (runs : keys.map (fun (k, p) => (some k, p.run.toNat)) =
      keys'.map fun (k, p) => (some k, p.run.toNat))
    (gates : keys.map (fun (k, p) => (some k, p.gated.toNat)) =
      keys'.map fun (k, p) => (some k, p.gated.toNat)) : keys = keys' := by
  induction keys generalizing keys' with
  | nil => exact (List.map_eq_nil_iff.1 counts.symm).symm
  | cons e keys ih =>
    cases keys' with
    | nil => cases counts
    | cons e' keys' =>
      obtain ⟨k, count, run, gated⟩ := e
      obtain ⟨k', count', run', gated'⟩ := e'
      obtain ⟨counted, counts⟩ := List.cons.inj counts
      obtain ⟨ran, runs⟩ := List.cons.inj runs
      obtain ⟨held, gates⟩ := List.cons.inj gates
      have key : k = k' := Option.some.inj (Prod.mk.inj counted).1
      have count : count = count' := UInt32.toNat_inj.1 (Prod.mk.inj counted).2
      have run : run = run' := UInt32.toNat_inj.1 (Prod.mk.inj ran).2
      have gate : gated = gated' := by
        cases gated <;> cases gated' <;> first | rfl | cases (Prod.mk.inj held).2
      rw [key, count, run, gate, ih counts runs gates]

theorem eq_of_samples
    (same : (families m keys).map Family.samples = (families m' keys').map Family.samples) :
    m = m' ∧ keys = keys' := by
  simp only [families, counter, gauge, List.map_cons, List.map_nil, List.cons.injEq, and_true,
    Prod.mk.injEq, true_and, UInt64.toNat_inj] at same
  obtain ⟨processed, ignored, unwatched, unconfigured, emitted, dropped, rejected, counts, runs,
    gates⟩ := same
  refine ⟨?_, stats_of_gauges counts runs gates⟩
  cases m
  cases m'
  rw [Metrics.mk.injEq]
  exact ⟨processed, ignored, unwatched, unconfigured, emitted, dropped, rejected⟩

theorem eq_of_text (same : text m keys = text m' keys') : m = m' ∧ keys = keys' := by
  have whole : chars m keys = chars m' keys' := String.ofList_injective same
  have pieces := congrArg (List.splitOn '\n') whole
  rw [splitOn_chars, splitOn_chars, List.append_left_inj] at pieces
  exact eq_of_samples (samples_of_lines
    (eq_of_map_chars (valid_lines m keys) (valid_lines m' keys') pieces))

end Injective

/-- The text tells the metrics and the keys with all there is to them, so it differs whenever one of
these does.  It is made of lines with a line feed behind each, and every line is a comment with help
or a type, or a sample with a decimal value and, if it has a label, a key in it; none of these lines
can be taken apart in two ways.  There are seven samples, and three more for each key. -/
theorem text_loses_nothing :
    (∀ m m' keys keys', text m keys = text m' keys' ↔ m = m' ∧ keys = keys') ∧
    (∀ m keys, ∃ lines : List Line,
      (text m keys).toList.splitOn '\n' = lines.map Line.chars ++ [[]] ∧
      (∀ line ∈ lines, line.Valid) ∧ lines.countP Line.isSample = 7 + 3 * keys.length) ∧
    ∀ line line' : Line, line.Valid → line'.Valid → line.chars = line'.chars → line = line' := by
  refine ⟨fun m m' keys keys' => ⟨eq_of_text, ?_⟩, fun m keys => ⟨lines m keys, ?_,
    valid_lines m keys, countP_isSample m keys⟩, fun line line' valid valid' =>
    valid.eq_of_chars valid'⟩
  · rintro ⟨rfl, rfl⟩
    rfl
  · rw [text, String.toList_ofList]
    exact splitOn_chars m keys

/-- Two keys with the same number, and a line of one of them. -/
theorem text_loses_nothing_alikeKeys :
    text .zero [(.port 80, ⟨7, 0, false⟩)] ≠ text .zero [(.netns 80, ⟨7, 0, false⟩)] ∧
    ∀ line : Line, line.Valid →
      line.chars = "connscale_connections\x7bkey=\"port:80\"\x7d 7".toList →
      line = .sample "connscale_connections".toList (some "port:80".toList) "7".toList := by
  obtain ⟨tells, -, once⟩ := text_loses_nothing
  have labelled : Line.Valid
      (.sample "connscale_connections".toList (some "port:80".toList) "7".toList) := by
    refine .sample (by decide) ?_ (by decide : Numeral.value? _ = some 7)
    rintro - ⟨⟩
    exact ⟨by decide, .port 80, by decide⟩
  exact ⟨fun same => absurd ((tells _ _ _ _).1 same).2 (by decide),
    fun line valid spelled => once _ _ valid labelled (spelled.trans (by decide))⟩

end ScaleWatch.Exposition
