import ScaleWatch.Proofs.Ingest.Splitting
import ScaleWatch.Proofs.Session.Chronicle
import ScaleWatch.Proofs.Session.IngestionPaths
import ScaleWatch.Proofs.Session.RearmRefinement

/-!
# What a monitor receives of an input

However ingestion takes turns with a consumer, the monitor receives the events on the lines before
the first that is no text, in order, and nothing else; the answer tells how many they are.  Where no
consumer runs, an input can be cut behind any line and be ingested in two parts (`lines_received`).
-/

namespace ScaleWatch.Session

theorem act_lines_of_not_consuming {s : Session} (alone : s.isConsuming = false)
    (input : List UInt8) :
    s.act (.lines input) =
      (.read (Ingest.octetsRead (Ingest.lines input)) (Ingest.events input).length, [],
        { s with
          monitor :=
            (Monitor.run (Monitor.calls worker (Ingest.events input)) s.monitor).2 }) := by
  rw [act, ingest_of_not_consuming alone]
  rfl

/-- Where no work is ready and no consumer runs, none is ready after an input either. -/
theorem step_lines_of_settled {s : Session} (settled : s.Settled) (alone : s.isConsuming = false)
    (input : List UInt8) : s.step (.lines input) = s.act (.lines input) := by
  have ahead : s.timers.filter (s.now < ·.due) = s.timers :=
    List.filter_eq_self.2 fun t waiting => decide_eq_true (settled.ahead waiting)
  have none_due : s.timers.filter (·.due ≤ s.now) = [] :=
    List.filter_eq_nil_iff.2 fun t waiting => by simpa using settled.ahead waiting
  have idle (m : Monitor) : settle { s with monitor := m } = ([], { s with monitor := m }) := by
    have not_consuming : ({ s with monitor := m } : Session).isConsuming = false := alone
    rw [settle, consume, not_consuming]
    simp only [Bool.false_eq_true, if_false, fireDue, none_due, ahead, List.foldl_nil]
  rw [step, act_lines_of_not_consuming alone]
  simp only [idle, List.append_nil]

/-- Where no consumer runs, an input can be cut behind any line and be ingested in two parts. -/
theorem act_lines_append {s : Session} (alone : s.isConsuming = false) {t : List Char}
    (ended : t = [] ∨ t.getLast? = some '\n') (rest : List UInt8) :
    ∃ octets octets' events events' s' s'',
      s.act (.lines (Text.Utf8.encode t)) = (.read octets events, [], s') ∧
      s'.act (.lines rest) = (.read octets' events', [], s'') ∧
      s.act (.lines (Text.Utf8.encode t ++ rest)) =
        (.read (octets + octets') (events + events'), [], s'') := by
  let calls := Monitor.calls worker (Ingest.events (Text.Utf8.encode t))
  let between : Session := { s with monitor := (Monitor.run calls s.monitor).2 }
  have still_alone : between.isConsuming = false := alone
  refine ⟨_, _, _, _, between, _, act_lines_of_not_consuming alone _,
    act_lines_of_not_consuming still_alone rest, ?_⟩
  have octets := Ingest.octetsRead_lines_append ended rest
  have events := Ingest.events_append ended rest
  rw [act_lines_of_not_consuming alone, octets, events, List.length_append, Monitor.calls,
    List.map_append, Monitor.snd_run_append]
  rfl

/-- An input is split behind each line feed, and the lines before the first that is no text are
read.  The monitor receives the events on these, in order, and nothing else, and the answer tells
how many they are.  Lines that are blank or no event stop nothing.  Where no consumer runs, a text
whose last line is ended and any input behind it leave the session that both leave as one input, and
the octets and events that are answered add up. -/
theorem lines_received :
    (∀ (s : Session) (input : List UInt8),
      ∃ (texts : List (List Char)) (unread : List (List UInt8)),
      (∀ pieces,
        Ingest.IsSplit input pieces ↔ pieces = texts.map Text.Utf8.encode ++ unread) ∧
      (∀ line ∈ unread.head?, ∀ t, line ≠ Text.Utf8.encode t) ∧
      Ingest.events input = texts.filterMap Ingest.eventOf? ∧
      (s.act (.lines input)).1 =
        .read (texts.map Text.Utf8.encode ++ unread.head?.toList).flatten.length
          (Ingest.events input).length ∧
      (∃ h, Path s h (s.act (.lines input)).2.2 ∧
        given h = (Ingest.events input).map fun e => .operate (.observe worker (.event e))) ∧
      (s.isConsuming = false →
        (s.act (.lines input)).2 = ([], { s with
          monitor :=
            (Monitor.run (Monitor.calls worker (Ingest.events input)) s.monitor).2 }))) ∧
    (∀ before t after : List Char, (∀ c ∈ before ++ after, Text.isBlank c = true) →
      (∀ c ∈ t.head?, Text.isBlank c = false) →
      (∀ c ∈ t.getLast?, Text.isBlank c = false) →
      Ingest.eventOf? (before ++ t ++ after) = (Event.ofJsonText t).toOption) ∧
    (∀ line, (∀ c ∈ line, Text.isBlank c = true) → Ingest.eventOf? line = none) ∧
    (∀ (s : Session) (t : List Char) (rest : List UInt8), s.isConsuming = false →
      t = [] ∨ t.getLast? = some '\n' →
      ∃ octets octets' events events' s' s'',
        s.act (.lines (Text.Utf8.encode t)) = (.read octets events, [], s') ∧
        s'.act (.lines rest) = (.read octets' events', [], s'') ∧
        s.act (.lines (Text.Utf8.encode t ++ rest)) =
          (.read (octets + octets') (events + events'), [], s'')) ∧
    ∀ (s : Session) input, s.Settled → s.isConsuming = false →
      s.step (.lines input) = s.act (.lines input) := by
  refine ⟨fun s input => ?_, fun before t after blank => Ingest.eventOf?_between blank,
    fun line => Ingest.eventOf?_of_blank,
    fun s t rest alone ended => act_lines_append alone ended rest,
    fun s input settled alone => step_lines_of_settled settled alone input⟩
  obtain ⟨unread, split, no_text, octets⟩ := Ingest.eq_readable_append (Ingest.lines input)
  obtain ⟨h, path, asked, -⟩ := path_act (.lines input) s
  refine ⟨Ingest.readable (Ingest.lines input), unread, fun pieces => ?_, no_text, rfl, ?_,
    ⟨h, path, asked⟩, fun alone => ?_⟩
  · rw [Ingest.isSplit_iff, ← split]
  · rw [act, ← octets]
  · rw [act_lines_of_not_consuming alone]

/-- An event whose line is ended by two characters. -/
def endedText : List Char :=
  "\x7b\"key\":\"port:1\",\"state\":1\x7d\r\n".toList

/-- A line that is no text, and an event behind it. -/
def brokenOff : List UInt8 :=
  0xFF :: 0x0A :: Text.Utf8.encode endedText

/-- The event in front is received, the one behind is not. -/
theorem lines_received_brokenOff :
    (Session.new (.new ⟨.latched, 16, 1, 1⟩) false none).isConsuming = false ∧
      endedText.getLast? = some '\n' ∧
      ∃ s' s'',
        (Session.new (.new ⟨.latched, 16, 1, 1⟩) false none).act
          (.lines (Text.Utf8.encode endedText)) = (.read 28 1, [], s') ∧
        s'.act (.lines brokenOff) = (.read 2 0, [], s'') ∧
        (Session.new (.new ⟨.latched, 16, 1, 1⟩) false none).act
          (.lines (Text.Utf8.encode endedText ++ brokenOff)) = (.read 30 1, [], s'') := by
  have ended : endedText.getLast? = some '\n' := by decide +kernel
  obtain ⟨octets, octets', events, events', s', s'', first, second, both⟩ :=
    lines_received.2.2.2.1 (.new (.new ⟨.latched, 16, 1, 1⟩) false none) endedText brokenOff rfl
      (.inr ended)
  have answered : Answer.read octets events = .read 28 1 := by
    have here : Ingest.octetsRead (Ingest.lines (Text.Utf8.encode endedText)) = 28 ∧
        (Ingest.events (Text.Utf8.encode endedText)).length = 1 := by decide +kernel
    rw [← here.1, ← here.2]
    exact (congrArg Prod.fst first).symm
  have answered' : Answer.read octets' events' = .read 2 0 := by
    have here : Ingest.octetsRead (Ingest.lines brokenOff) = 2 ∧
        (Ingest.events brokenOff).length = 0 := by decide +kernel
    rw [← here.1, ← here.2]
    exact (congrArg Prod.fst second).symm
  cases answered
  cases answered'
  exact ⟨rfl, ended, s', s'', first, second, both⟩

end ScaleWatch.Session
