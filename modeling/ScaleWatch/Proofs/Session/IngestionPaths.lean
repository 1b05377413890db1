import ScaleWatch.Proofs.Ingest.Lines
import ScaleWatch.Proofs.Monitor.Journal
import ScaleWatch.Proofs.Session.TurnTaking

/-!
# All ways in lead to the same monitor

Events reach a monitor one by one, as records of the observation points, as a batch that is posted,
or as lines of an input.  All of these are the same operations in the same order, so they leave the
same monitor (`ingestion_paths_agree`).

Only lines are ingested in turns with other activities.  Where no consumer runs there are no others,
and one turn of ingestion follows the other until no line is left (`ingest_of_not_consuming`).
-/

namespace ScaleWatch

/-- The record of the observation point that knows keys of this kind. -/
def Event.raw (e : Event) : Observation :=
  match e.key with
  | .netns id => .socket id e.state
  | .port number => .tracepoint number e.state

theorem Event.transition?_raw (e : Event) :
    e.raw.transition? = (Observation.event e).transition? := by
  obtain ⟨key, state⟩ := e
  cases key <;> rfl

namespace Monitor

/-- Events as calls of the monitor by a worker. -/
def calls (worker : Nat) (events : List Event) : List Op :=
  events.map fun e => .observe worker (.event e)

/-- Events as records of the observation points. -/
def rawCalls (worker : Nat) (events : List Event) : List Op :=
  events.map fun e => .observe worker e.raw

/-- Monitors make no difference between observations of one transition. -/
theorem step_observe_congr {o o' : Observation} (same : o.transition? = o'.transition?)
    (worker : Nat) (m : Monitor) : m.step (.observe worker o) = m.step (.observe worker o') := by
  simp only [step, observe, same]

theorem run_rawCalls (worker : Nat) (events : List Event) (m : Monitor) :
    run (rawCalls worker events) m = run (calls worker events) m := by
  induction events generalizing m with
  | nil => rfl
  | cons e rest ih =>
    have first := step_observe_congr e.transition?_raw worker m
    have later := ih (m.step (.observe worker (.event e))).2
    simp only [rawCalls, calls, List.map_cons, run] at later ⊢
    rw [first, later]

/-- The signals that the answers to events tell of, without their buffer lengths. -/
def told (events : List Event) (answers : List Answer) : List Signal :=
  (events.zip answers).filterMap fun (e, a) => a.fired?.map fun d => ⟨e.key, d, none⟩

theorem observeAll_eq (worker : Nat) (events : List Event) (m : Monitor) :
    Http.observeAll worker events m =
      (told events (run (calls worker events) m).1, (run (calls worker events) m).2) := by
  induction events generalizing m with
  | nil => rfl
  | cons e rest ih =>
    have later := ih (m.observe worker (.event e)).2
    have first : (m.observe worker (.event e)).1.map (fun d => Signal.mk e.key d none) =
        (m.step (.observe worker (.event e))).1.fired?.map fun d => ⟨e.key, d, none⟩ := rfl
    simp only [Http.observeAll, later, first, calls, List.map_cons, run, told, List.zip_cons_cons,
      List.filterMap_cons]
    cases (m.step (.observe worker (.event e))).1.fired? <;> rfl

end Monitor

namespace Http

/-- The request posts these events, in any form that is read as an array of them. -/
structure Request.Posts (events : List Event) (r : Request) : Prop where
  method : r.method = .post
  resource : Resource.ofPath? r.path = some .events
  mediaType : r.mediaType.any MediaType.isJson = true
  small : (Text.Utf8.encode r.body).length ≤ maxBodyOctets
  body : (Json.Shape.list Wire.event).decode r.body = .ok events

theorem Request.Posts.read {events : List Event} {r : Request} (posts : r.Posts events) :
    r.read (.list Wire.event) = .ok events := by
  rw [Request.read, posts.mediaType, posts.body]
  simp [Nat.not_lt.2 posts.small]

/-- The events, posted as an array without any white space. -/
def batch (events : List Event) : Request where
  method := .post
  path := "/api/v1/events".toList
  mediaType := some "application/json".toList
  body := (Json.array (events.map Event.toJson)).chars

theorem posts_batch {events : List Event}
    (small : (Text.Utf8.encode (Json.array (events.map Event.toJson)).chars).length ≤
      maxBodyOctets) : Request.Posts events (batch events) where
  method := rfl
  resource := (by decide +kernel : Resource.ofPath? "/api/v1/events".toList = some .events)
  mediaType := (by decide +kernel : MediaType.isJson "application/json".toList = true)
  small := small
  body := by rw [batch, Json.decode_chars, Wire.events_toJson]

/-- What is answered to events that were received. -/
def received (events : List Event) (answers : List Monitor.Answer) : Response :=
  .ok 200 (.object [("received", .number events.length),
    ("signals", .array ((Monitor.told events answers).map Signal.toJson))])

theorem Request.Posts.handle {events : List Event} {r : Request} (posts : r.Posts events)
    (worker : Nat) (m : Monitor) :
    Http.handle worker r m =
      (received events (Monitor.run (Monitor.calls worker events) m).1,
        (Monitor.run (Monitor.calls worker events) m).2) := by
  have not_head : r.method ≠ .head := by
    rw [posts.method]
    decide
  rw [Http.handle, posts.resource]
  simp only
  rw [if_neg not_head, posts.method, serve, posts.read, withPart, postEvents,
    Monitor.observeAll_eq]
  rfl

end Http

namespace Session

/-! ### Lines without a consumer -/

namespace Turns

/-- Where nobody listens, a turn of ingestion reports lines and readies nobody else. -/
theorem ingest_alone (s : Session) (lines : List (List Char)) :
    ingest ⟨s, lines, [], [], false⟩ =
      ⟨{ s with monitor := (Monitor.run (reports (lines.take unitsPerTurn)) s.monitor).2 },
        lines.drop unitsPerTurn, [],
        if (lines.take unitsPerTurn).length = unitsPerTurn then [.ingest] else [], false⟩ := by
  rw [ingest, feed_eq, wake, yieldIf_eq]
  simp [reports]

theorem takeUpTo_idle (limit : Nat) {t : Turns} (idle : t.ready = []) :
    takeUpTo limit t = ([], t) := by
  cases limit with
  | zero => rfl
  | succ limit => rw [takeUpTo, idle]

theorem takeUpTo_alone (limit : Nat) (s : Session) (lines : List (List Char)) :
    takeUpTo (limit + 1) ⟨s, lines, [.ingest], [], false⟩ =
      ([], ingest ⟨s, lines, [], [], false⟩) := by
  have idle : (ingest ⟨s, lines, [], [], false⟩).ready = [] := by rw [ingest_alone]
  rw [takeUpTo]
  simp only [take]
  rw [takeUpTo_idle limit idle]
  rfl

theorem rounds_idle (limit : Nat) {t : Turns} (idle : t.ready = []) : rounds limit t = ([], t) := by
  cases limit with
  | zero => rfl
  | succ limit =>
    rw [rounds, idle]
    rfl

/-- Each round takes a turn's lines, until one is not full. -/
theorem rounds_alone {limit : Nat} {lines : List (List Char)} (enough : lines.length < limit)
    (s : Session) :
    rounds limit ⟨s, lines, [.ingest], [], false⟩ =
      ([], ⟨{ s with monitor := (Monitor.run (reports lines) s.monitor).2 }, [], [], [],
        false⟩) := by
  induction limit generalizing lines s with
  | zero => omega
  | succ limit ih =>
    rw [rounds, if_neg (by simp), turnsPerRound, takeUpTo_alone, ingest_alone]
    by_cases full : (lines.take unitsPerTurn).length = unitsPerTurn
    · have fewer : (lines.drop unitsPerTurn).length < limit := by
        rw [List.length_take] at full
        rw [List.length_drop]
        simp only [unitsPerTurn] at *
        omega
      have whole : reports lines =
          reports (lines.take unitsPerTurn) ++ reports (lines.drop unitsPerTurn) := by
        rw [← reports_append, List.take_append_drop]
      simp only [renew, full, if_true, List.nil_append]
      rw [ih fewer, whole, Monitor.snd_run_append]
    · have last : lines.length ≤ unitsPerTurn := by
        rw [List.length_take] at full
        omega
      simp only [renew, full, if_false]
      rw [rounds_idle limit rfl, List.drop_eq_nil_of_le last, List.take_of_length_le last]
      rfl

end Turns

theorem ingest_of_not_consuming {s : Session} (alone : s.isConsuming = false)
    (lines : List (List Char)) :
    s.ingest lines =
      ([], { s with monitor := (Monitor.run (reports lines) s.monitor).2 }) := by
  rw [ingest, alone, Turns.rounds_alone (by omega)]

/-! ### All ways in -/

/-- Whichever way events come in, they leave the monitor that the calls for them, one by one, leave.
A post is answered with their number and with the key and direction of every call that fired,
whether or not its signal was dropped.  Of lines those that are events are counted, and it does not
matter which other lines stand between them; no consumer may run, for it would receive in
between. -/
theorem ingestion_paths_agree (events : List Event) :
    (∀ worker m, Monitor.run (Monitor.rawCalls worker events) m =
        Monitor.run (Monitor.calls worker events) m) ∧
      (∀ worker m r, Http.Request.Posts events r →
        Http.handle worker r m =
          (Http.received events (Monitor.run (Monitor.calls worker events) m).1,
            (Monitor.run (Monitor.calls worker events) m).2)) ∧
      ((Text.Utf8.encode (Json.array (events.map Event.toJson)).chars).length ≤
          Http.maxBodyOctets → Http.Request.Posts events (Http.batch events)) ∧
      (∀ texts : List (List Char), (∀ t ∈ texts, '\n' ∉ t) →
        texts.filterMap Ingest.eventOf? = events →
        ∀ input, input = Text.Utf8.encode (['\n'].intercalate texts) →
          (∀ worker m, Ingest.feed worker (Ingest.events input) m =
            (Monitor.run (Monitor.calls worker events) m).2) ∧
          ∀ s : Session, s.isConsuming = false →
            s.act (.lines input) =
              (.read input.length events.length, [],
                { s with
                  monitor := (Monitor.run (Monitor.calls worker events) s.monitor).2 })) ∧
      ∀ e : Event, '\n' ∉ e.toJson.chars ∧ Ingest.eventOf? e.toJson.chars = some e := by
  refine ⟨fun worker m => Monitor.run_rawCalls worker events m,
    fun worker m r posts => posts.handle worker m, ?_, ?_, ?_⟩
  · exact Http.posts_batch
  · rintro texts whole rfl input rfl
    obtain ⟨read, octets⟩ := Ingest.events_encode whole
    refine ⟨fun worker m => ?_, fun s alone => ?_⟩
    · rw [read]
      exact feed_eq worker _ m
    · have same : reports (Ingest.readable (Ingest.lines
          (Text.Utf8.encode (['\n'].intercalate texts)))) =
          Monitor.calls worker (texts.filterMap Ingest.eventOf?) :=
        congrArg (Monitor.calls worker) read
      simp only [act]
      rw [ingest_of_not_consuming alone, octets, read, same]
  · exact fun e => ⟨Json.feed_not_mem_chars _, Ingest.eventOf?_toJson e⟩

end Session

end ScaleWatch
