import ScaleWatch.Config.Reading
import ScaleWatch.Proofs.Bounds.Slots
import ScaleWatch.Proofs.Outcome
import ScaleWatch.Proofs.Text.Numerals

/-!
# The delay that is written is the delay that is meant

A duration is spelled by a numeral, alone or with an `s` or an `m` behind it, and stands for the
seconds that the numeral names or for sixty times as many (`Duration.Spelling`).  A text is read as
a duration exactly if it spells one that fits 64 bits, however many zeros stand in front; and then
the duration that is read has as many seconds as are spelled (`Duration.parse_eq_ok_iff`).  Since an
accepted configuration has been checked, its delay can be read, and is the one that is written.
-/

namespace ScaleWatch

namespace Duration

open Text

/-! ### Spellings -/

/-- What may stand behind the numeral of a duration. -/
inductive Measure where
  | bare
  | seconds
  | minutes
  deriving DecidableEq

namespace Measure

def suffix : Measure → List Char
  | bare => []
  | seconds => ['s']
  | minutes => ['m']

/-- How many seconds one unit has. -/
def factor : Measure → Nat
  | bare | seconds => 1
  | minutes => 60

end Measure

/-- A way to write a duration. -/
structure Spelling where
  number : Numeral.Written
  measure : Measure

namespace Spelling

def chars (w : Spelling) : List Char :=
  w.number.chars ++ w.measure.suffix

/-- The seconds that are spelled, be they ever so many. -/
def seconds (w : Spelling) : Nat :=
  w.measure.factor * w.number.value

theorem chars_bare (w : Numeral.Written) : chars ⟨w, .bare⟩ = w.chars :=
  List.append_nil _

end Spelling

/-! ### What is read -/

section Reading

variable {t : List Char} {n : Nat}

theorem secondsOf?_seconds (t : List Char) :
    secondsOf? (t ++ ['s']) = Numeral.read? maxSeconds t := by
  simp [secondsOf?]

theorem secondsOf?_minutes (t : List Char) :
    secondsOf? (t ++ ['m']) =
      ((Numeral.read? maxSeconds t).map (60 * ·)).filter (· ≤ maxSeconds) := by
  simp [secondsOf?]

theorem secondsOf?_bare (noSeconds : t.getLast? ≠ some 's') (noMinutes : t.getLast? ≠ some 'm') :
    secondsOf? t = Numeral.read? maxSeconds t := by
  unfold secondsOf?
  split
  · next last => exact absurd last noSeconds
  · next last => exact absurd last noMinutes
  · rfl

/-- A numeral ends with a digit, so it is never taken for one with a unit. -/
theorem secondsOf?_numeral (w : Numeral.Written) :
    secondsOf? w.chars = Numeral.read? maxSeconds w.chars := by
  have digit : ∀ c ∈ w.chars.getLast?, c.isDigit = true := fun c last => by
    rw [Numeral.Written.chars, List.getLast?_append_of_ne_nil _ w.ne_nil] at last
    exact w.isDigit c (List.mem_of_getLast? last)
  exact secondsOf?_bare (fun last => absurd (digit 's' last) (by decide))
    fun last => absurd (digit 'm' last) (by decide)

theorem exists_spelling_of_secondsOf? (read : secondsOf? t = some n) :
    ∃ w : Spelling, w.chars = t ∧ w.seconds = n ∧ n ≤ maxSeconds := by
  rcases List.eq_nil_or_concat t with rfl | ⟨front, last, rfl⟩
  · obtain ⟨w, spelled, rfl, fits⟩ := Numeral.read?_eq_some_iff.1 read
    exact ⟨⟨w, .bare⟩, (Spelling.chars_bare w).trans spelled, Nat.one_mul _, fits⟩
  rw [List.concat_eq_append] at read ⊢
  by_cases isSecond : last = 's'
  · subst isSecond
    rw [secondsOf?_seconds] at read
    obtain ⟨w, rfl, rfl, fits⟩ := Numeral.read?_eq_some_iff.1 read
    exact ⟨⟨w, .seconds⟩, rfl, Nat.one_mul _, fits⟩
  by_cases isMinute : last = 'm'
  · subst isMinute
    rw [secondsOf?_minutes, Option.filter_eq_some_iff, Option.map_eq_some_iff] at read
    obtain ⟨⟨minutes, numeral, rfl⟩, fits⟩ := read
    obtain ⟨w, rfl, rfl, -⟩ := Numeral.read?_eq_some_iff.1 numeral
    exact ⟨⟨w, .minutes⟩, rfl, rfl, of_decide_eq_true fits⟩
  · rw [secondsOf?_bare (by simp [isSecond]) (by simp [isMinute])] at read
    obtain ⟨w, spelled, rfl, fits⟩ := Numeral.read?_eq_some_iff.1 read
    exact ⟨⟨w, .bare⟩, (Spelling.chars_bare w).trans spelled, Nat.one_mul _, fits⟩

theorem secondsOf?_chars {w : Spelling} (fits : w.seconds ≤ maxSeconds) :
    secondsOf? w.chars = some w.seconds := by
  obtain ⟨number, measure⟩ := w
  have numeral (inside : number.value ≤ maxSeconds) :
      Numeral.read? maxSeconds number.chars = some number.value :=
    Numeral.read?_eq_some_iff.2 ⟨number, rfl, rfl, inside⟩
  cases measure with
  | bare =>
    have alone : Spelling.seconds ⟨number, .bare⟩ = number.value := Nat.one_mul _
    rw [alone] at fits ⊢
    rw [Spelling.chars_bare, secondsOf?_numeral, numeral fits]
  | seconds =>
    have alone : Spelling.seconds ⟨number, .seconds⟩ = number.value := Nat.one_mul _
    rw [alone] at fits ⊢
    exact (secondsOf?_seconds _).trans (numeral fits)
  | minutes =>
    have product : 60 * number.value ≤ maxSeconds := fits
    refine (secondsOf?_minutes _).trans ?_
    rw [numeral (by omega), Option.map_some, Option.filter_some, if_pos (decide_eq_true product)]
    rfl

theorem secondsOf?_eq_some_iff :
    secondsOf? t = some n ↔ ∃ w : Spelling, w.chars = t ∧ w.seconds = n ∧ n ≤ maxSeconds := by
  refine ⟨exists_spelling_of_secondsOf?, ?_⟩
  rintro ⟨w, rfl, rfl, fits⟩
  exact secondsOf?_chars fits

end Reading

theorem parse_eq_ok_iff {text : String} {d : Duration} :
    parse text = .ok d ↔
      ∃ w : Spelling, w.chars = trim text.toList ∧ w.seconds ≤ maxSeconds ∧
        d.seconds.toNat = w.seconds := by
  have read : parse text = .ok d ↔
      ∃ n, secondsOf? (trim text.toList) = some n ∧ ⟨.ofNat n⟩ = d := by
    rw [parse]
    cases secondsOf? (trim text.toList) <;> simp
  rw [read]
  constructor
  · rintro ⟨n, given, rfl⟩
    obtain ⟨w, spelled, rfl, fits⟩ := secondsOf?_eq_some_iff.1 given
    exact ⟨w, spelled, fits, UInt64.toNat_ofNat_of_lt' (Nat.lt_of_le_pred (by decide) fits)⟩
  · rintro ⟨w, spelled, fits, same⟩
    refine ⟨w.seconds, secondsOf?_eq_some_iff.2 ⟨w, spelled, rfl, fits⟩, ?_⟩
    rw [← same, UInt64.ofNat_toNat]

theorem parse_of_unspelled {text : String}
    (unspelled : ∀ w : Spelling, w.chars = trim text.toList → maxSeconds < w.seconds) :
    parse text = .error (.invalidDuration (String.ofList (trim text.toList))) := by
  have unread : secondsOf? (trim text.toList) = none := by
    rw [Option.eq_none_iff_forall_ne_some]
    intro n read
    obtain ⟨w, spelled, rfl, fits⟩ := secondsOf?_eq_some_iff.1 read
    exact Nat.not_lt.2 fits (unspelled w spelled)
  rw [parse, unread]

end Duration

/-! ### What has been checked -/

namespace Config

variable {c : Config}

theorem sound_of_check (h : c.check = .ok ()) :
    (∀ b, c.bounds? = some b → b.Consistent) ∧ ∃ delay, c.rearm = .ok delay := by
  obtain ⟨⟨⟩, bounds, h⟩ := bind_eq_ok_iff.1 h
  obtain ⟨⟨⟩, -, h⟩ := bind_eq_ok_iff.1 h
  obtain ⟨⟨⟩, -, h⟩ := bind_eq_ok_iff.1 h
  obtain ⟨⟨⟩, -, h⟩ := bind_eq_ok_iff.1 h
  refine ⟨fun b given => Bounds.check_eq_ok_iff.1 ?_, ?_⟩
  · rwa [checkBounds, given] at bounds
  · rcases rearm : c.rearm with fault | delay
    · rw [rearm] at h
      cases h
    · exact ⟨delay, rfl⟩

theorem check_of_ofChars {units : UInt64} {document : List Char}
    (accepted : ofChars units document = .ok c) : c.check = .ok () := by
  unfold ofChars at accepted
  split at accepted
  · cases accepted
  obtain ⟨c', -, accepted⟩ := bind_eq_ok_iff.1 accepted
  obtain ⟨⟨⟩, checked, accepted⟩ := bind_eq_ok_iff.1 accepted
  cases accepted
  exact mapError_eq_ok_iff.1 checked

theorem check_of_load {units : UInt64} {content : Except FileFault (List UInt8)}
    (loaded : load units content = .ok c) : c.check = .ok () := by
  unfold load at loaded
  split at loaded
  · cases loaded
  split at loaded
  · exact check_of_ofChars loaded
  · cases loaded

/-- A delay that can be read at all is the one that is written. -/
theorem rearm_of_check (checked : c.check = .ok ()) :
    c.rearmAfter? = none ∧ c.rearm = .ok none ∨
      ∃ text d, c.rearmAfter? = some text ∧ Duration.parse text = .ok d ∧
        c.rearm = .ok (some d) := by
  obtain ⟨delay, read⟩ := (sound_of_check checked).2
  rcases given : c.rearmAfter? with _ | text
  · exact .inl ⟨rfl, by rw [rearm, given]⟩
  · have parsed : (Duration.parse text).map some = .ok delay := by rwa [rearm, given] at read
    obtain ⟨d, duration, rfl⟩ := map_eq_ok_iff.1 parsed
    exact .inr ⟨text, d, rfl, duration, read⟩

end Config

/-- A text is a duration exactly if, without the blanks around it, it spells one of at most
2^64 - 1 seconds; then so many seconds are read, and otherwise the text is refused and quoted
without those blanks.  So the delay of an accepted configuration is what its text spells, and
there is none only where no text stands. -/
theorem Duration.read_exactly :
    (∀ text d, parse text = .ok d ↔
      ∃ w : Spelling, w.chars = Text.trim text.toList ∧ w.seconds ≤ 18446744073709551615 ∧
        d.seconds.toNat = w.seconds) ∧
    (∀ text, (∀ w : Spelling, w.chars = Text.trim text.toList →
        18446744073709551615 < w.seconds) →
      parse text = .error (.invalidDuration (String.ofList (Text.trim text.toList)))) ∧
    ∀ units document c, Config.ofChars units document = .ok c →
      c.rearmAfter? = none ∧ c.rearm = .ok none ∨
        ∃ text w d, c.rearmAfter? = some text ∧ Spelling.chars w = Text.trim text.toList ∧
          c.rearm = .ok (some d) ∧ d.seconds.toNat = w.seconds := by
  refine ⟨fun text d => parse_eq_ok_iff, fun text => parse_of_unspelled,
    fun units document c accepted => ?_⟩
  rcases Config.rearm_of_check (Config.check_of_ofChars accepted) with
    none | ⟨text, d, given, parsed, read⟩
  · exact .inl none
  · obtain ⟨w, spelled, -, same⟩ := parse_eq_ok_iff.1 parsed
    exact .inr ⟨text, w, d, given, spelled, read, same⟩

/-- The largest number of minutes, behind a sign and zeros. -/
def Duration.mostMinutes : Spelling where
  number.plus := true
  number.digits := "00307445734561825860".toList
  number.ne_nil := by decide
  number.isDigit := List.all_eq_true.1 (by decide)
  measure := .minutes

def Config.largestDelay : List Char :=
  "[consumer]\nrearm_after = \" +00307445734561825860m\"\n".toList

/-- One minute more is refused. -/
theorem Duration.read_exactly_largestDelay :
    parse " +00307445734561825860m" = .ok ⟨18446744073709551600⟩ ∧
    parse "307445734561825861m" = .error (.invalidDuration "307445734561825861m") ∧
    ∃ c d w, Config.ofChars 4 Config.largestDelay = .ok c ∧ c.rearm = .ok (some d) ∧
      Spelling.chars w = mostMinutes.chars ∧ d.seconds.toNat = w.seconds := by
  have unread : secondsOf? (Text.trim "307445734561825861m".toList) = none := by decide
  have accepted : Config.ofChars 4 Config.largestDelay =
      .ok { Config.default 4 with rearmAfter? := some " +00307445734561825860m" } := by
    decide +kernel
  obtain ⟨read, refused, written⟩ := read_exactly
  refine ⟨(read _ _).2 ⟨mostMinutes, by decide, by decide, by decide⟩,
    refused _ fun w spelled => ?_, ?_⟩
  · refine Nat.lt_of_not_le fun fits => ?_
    have value := secondsOf?_chars fits
    rw [spelled, unread] at value
    cases value
  · rcases written _ _ _ accepted with ⟨absent, -⟩ | ⟨text, w, d, given, spelled, rearm, same⟩
    · cases absent
    · cases given
      exact ⟨_, d, w, accepted, rearm, spelled.trans (by decide), same⟩

end ScaleWatch
