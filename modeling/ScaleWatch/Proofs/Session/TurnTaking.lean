import Mathlib.Algebra.Ring.Nat
import ScaleWatch.Proofs.Session.Deeds

/-!
# Everything on the lines is ingested

While lines are ingested, ingestion, the consumer and the releases take turns.  Whatever the order
of the turns, what happens is a path on which the events of the lines are reported one by one, with
the session's own work between them, and what it prints is what is printed (`path_ingest`).

No line is left behind, for the turns that are given are enough: every turn takes at least 2 from
the potential, in which a line weighs 4, a signal that is queued 3, the activity of ingesting 4 and
any other activity 2 (`Turns.turn`).
-/

namespace ScaleWatch.Session

/-- The events of lines, as they are reported to the monitor. -/
def reports (lines : List (List Char)) : List Monitor.Op :=
  (lines.filterMap Ingest.eventOf?).map fun e => .observe worker (.event e)

theorem reports_append (lines lines' : List (List Char)) :
    reports (lines ++ lines') = reports lines ++ reports lines' := by
  simp [reports]

theorem length_reports_le (lines : List (List Char)) :
    (reports lines).length ≤ lines.length := by
  rw [reports, List.length_map]
  exact List.length_filterMap_le _ _

theorem direct_reports (lines : List (List Char)) :
    ∀ op ∈ reports lines, op.isOnStream = false := by
  intro op inside
  obtain ⟨e, -, rfl⟩ := List.mem_map.1 inside
  rfl

theorem feed_eq (w : Nat) (events : List Event) (m : Monitor) :
    Ingest.feed w events m = (Monitor.run (events.map fun e => .observe w (.event e)) m).2 := by
  induction events generalizing m with
  | nil => rfl
  | cons e rest ih => exact ih (m.observe w (.event e)).2

/-! ### The queue -/

theorem pending_step_le {op : Monitor.Op} (direct : op.isOnStream = false) (m : Monitor) :
    (m.step op).2.channel.pending ≤ m.channel.pending + 1 := by
  rcases h : m.firing? op with _ | ⟨k, d⟩
  · rw [Monitor.channel_of_not_firing direct h]
    exact Nat.le_succ _
  · obtain ⟨n, sent⟩ := Monitor.channel_of_firing h
    rw [sent, Channel.pending_emit]
    split
    · exact Nat.le_refl _
    · exact Nat.le_succ _

theorem pending_run_le {ops : List Monitor.Op} (direct : ∀ op ∈ ops, op.isOnStream = false)
    (m : Monitor) : (Monitor.run ops m).2.channel.pending ≤ m.channel.pending + ops.length := by
  induction ops generalizing m with
  | nil => exact Nat.le_refl _
  | cons op ops ih =>
    have first := pending_step_le (direct op List.mem_cons_self) m
    have rest := ih (fun op inside => direct op (List.mem_cons_of_mem _ inside)) (m.step op).2
    rw [Monitor.run, List.length_cons]
    simp only
    omega

theorem signals_consumeUpTo (limit : Nat) (s : Session) :
    (consumeUpTo limit s).1 = (Channel.drainUpTo limit s.monitor.channel).1 := by
  induction limit generalizing s with
  | zero => rfl
  | succ limit ih =>
    rw [consumeUpTo_succ, Channel.drainUpTo]
    rcases s.monitor.channel.tryRecv with _ | ⟨signal, channel⟩
    · rfl
    · simp only [ih, monitor_schedule]

theorem pending_consumeUpTo (limit : Nat) (s : Session) :
    (consumeUpTo limit s).1.length + (consumeUpTo limit s).2.monitor.channel.pending =
      s.monitor.channel.pending := by
  rw [signals_consumeUpTo, channel_consumeUpTo]
  exact (Channel.drainUpTo_spec limit s.monitor.channel).1

theorem isConsuming_consumeUpTo (limit : Nat) (s : Session) :
    (consumeUpTo limit s).2.isConsuming = s.isConsuming := by
  induction limit generalizing s with
  | zero => rfl
  | succ limit ih =>
    rw [consumeUpTo_succ]
    rcases s.monitor.channel.tryRecv with _ | ⟨signal, channel⟩
    · rfl
    · simp only [ih, isConsuming_schedule]
      rfl

theorem fireOldest_cases (s : Session) :
    s.fireOldest = s ∨ ∃ t ∈ s.timers, t.due ≤ s.now ∧
      s.fireOldest = fire t { s with timers := s.timers.erase t } := by
  unfold fireOldest
  split
  · next t found =>
    have due := List.find?_some found
    exact .inr ⟨t, List.mem_of_find?_eq_some found, of_decide_eq_true due, rfl⟩
  · exact .inl rfl

namespace Turns

/-! ### One turn -/

def weight : Activity → Nat
  | .ingest => 4
  | .consume | .release => 2

/-- What is left to be done; every turn takes at least 2 of it. -/
def potential (t : Turns) : Nat :=
  4 * t.lines.length + 3 * t.session.monitor.channel.pending +
    ((t.ready ++ t.yielded).map weight).sum

/-- While lines are left they will be ingested, and the consumer has turns only if it runs. -/
structure Sound (t : Turns) : Prop where
  unread : t.lines ≠ [] → .ingest ∈ t.ready ++ t.yielded
  consuming : .consume ∈ t.ready ++ t.yielded ∨ t.listening = true → t.session.isConsuming = true

/-- What happened from one turn to another is a path, on which the lines that are no longer there
were reported, and the signals were printed. -/
def Leads (t : Turns) (signals : List Signal) (t' : Turns) : Prop :=
  ∃ h, Path t.session h t'.session ∧
    given h ++ (reports t'.lines).map .operate = (reports t.lines).map .operate ∧
    printed h = signals

variable {t t' t'' : Turns} {signals later : List Signal}

theorem leads_refl (t : Turns) : t.Leads [] t :=
  ⟨[], .done _, rfl, rfl⟩

theorem Leads.trans (first : t.Leads signals t') (second : t'.Leads later t'') :
    t.Leads (signals ++ later) t'' := by
  obtain ⟨h, path, told, same⟩ := first
  obtain ⟨h', path', told', same'⟩ := second
  refine ⟨h ++ h', path.append path', ?_, ?_⟩
  · rw [given_append, List.append_assoc, told', told]
  · rw [printed_append, same, same']

theorem leads_of_own {h : List Moment} (path : Path t.session h t'.session) (own : given h = [])
    (same : t'.lines = t.lines) : t.Leads (printed h) t' :=
  ⟨h, path, by rw [own, same, List.nil_append], rfl⟩

theorem wake_eq (t : Turns) :
    ∃ woken listening, t.wake = { t with ready := t.ready ++ woken, listening } ∧
      (woken.map weight).sum ≤ 2 ∧
      (.consume ∈ woken ∨ listening = true → t.listening = true) := by
  unfold wake
  split
  · next h =>
    simp only [Bool.and_eq_true] at h
    exact ⟨[.consume], false, rfl, Nat.le_refl _, fun _ => h.1⟩
  · refine ⟨[], t.listening, ?_, Nat.zero_le _, ?_⟩
    · rw [List.append_nil]
    · simp

theorem yieldIf_eq (done : Bool) (a : Activity) (t : Turns) :
    t.yieldIf done a = { t with yielded := (if done then [a] else []) ++ t.yielded } := by
  cases done <;> rfl

/-- A turn of ingestion reports a line for each unit of work, and yields unless the lines are at
their end.  Only a consumer that was listening is woken. -/
theorem ingest_eq (t : Turns) :
    ∃ woken listening,
      t.ingest =
        { session := { t.session with
            monitor := (Monitor.run (reports (t.lines.take unitsPerTurn)) t.session.monitor).2 }
          lines := t.lines.drop unitsPerTurn
          ready := t.ready ++ woken
          yielded :=
            (if (t.lines.take unitsPerTurn).length = unitsPerTurn then [.ingest] else []) ++
              t.yielded
          listening } ∧
      (woken.map weight).sum ≤ 2 ∧ (.consume ∈ woken ∨ listening = true → t.listening = true) := by
  have fed : Ingest.feed worker ((t.lines.take unitsPerTurn).filterMap Ingest.eventOf?)
      t.session.monitor = (Monitor.run (reports (t.lines.take unitsPerTurn)) t.session.monitor).2 :=
    feed_eq _ _ _
  obtain ⟨woken, listening, awake, light, listens⟩ := wake_eq
    { t with
      session := { t.session with
        monitor := (Monitor.run (reports (t.lines.take unitsPerTurn)) t.session.monitor).2 }
      lines := t.lines.drop unitsPerTurn }
  refine ⟨woken, listening, ?_, light, listens⟩
  simp only [ingest, fed, awake, yieldIf_eq, decide_eq_true_eq]

theorem leads_ingest (t : Turns) (ready : List Activity) :
    t.Leads [] (ingest { t with ready }) := by
  obtain ⟨woken, listening, made, -, -⟩ := ingest_eq { t with ready }
  obtain ⟨moments, path, same, silent⟩ :=
    path_run (direct_reports (t.lines.take unitsPerTurn)) t.session
  rw [made]
  refine ⟨moments, path, ?_, silent⟩
  rw [same, ← List.map_append, ← reports_append, List.take_append_drop]

theorem sound_ingest {ready : List Activity} (h : t.ready = .ingest :: ready) (sound : t.Sound) :
    (ingest { t with ready }).Sound := by
  obtain ⟨woken, listening, made, -, listens⟩ := ingest_eq { t with ready }
  rw [made]
  refine ⟨fun unread => ?_, fun active => sound.consuming ?_⟩
  · have more : unitsPerTurn < t.lines.length := by
      by_contra few
      exact unread (List.drop_eq_nil_of_le (Nat.not_lt.1 few))
    have full : (t.lines.take unitsPerTurn).length = unitsPerTurn := by
      rw [List.length_take]
      omega
    simp [full]
  · have own : .consume ∉ (if (t.lines.take unitsPerTurn).length = unitsPerTurn then
        [Activity.ingest] else []) := by
      split <;> simp
    simp only [List.mem_append, own, false_or] at active
    simp only [h, List.mem_append, List.mem_cons]
    rcases active with ((inside | inside) | inside) | inside
    · exact .inl (.inl (.inr inside))
    · exact .inr (listens (.inl inside))
    · exact .inl (.inr inside)
    · exact .inr (listens (.inr inside))

theorem potential_ingest {ready : List Activity} (h : t.ready = .ingest :: ready) :
    (ingest { t with ready }).potential + 2 ≤ t.potential := by
  obtain ⟨woken, listening, made, light, -⟩ := ingest_eq { t with ready }
  have queued := pending_run_le (direct_reports (t.lines.take unitsPerTurn)) t.session.monitor
  have few := length_reports_le (t.lines.take unitsPerTurn)
  have size : (t.lines.take unitsPerTurn).length = min unitsPerTurn t.lines.length :=
    List.length_take
  have left : (t.lines.drop unitsPerTurn).length = t.lines.length - unitsPerTurn :=
    List.length_drop
  simp only [made, potential, h, List.map_append, List.sum_append, List.map_cons, List.sum_cons,
    weight]
  by_cases full : (t.lines.take unitsPerTurn).length = unitsPerTurn
  · simp only [full, if_true, List.map_cons, List.map_nil, List.sum_cons, List.sum_nil, weight]
    simp only [unitsPerTurn] at *
    omega
  · simp only [full, if_false, List.map_nil, List.sum_nil]
    simp only [unitsPerTurn] at *
    omega

/-- A turn of the consumer makes a release, which weighs less, of each signal it takes; it yields
only when it has taken as many as it may. -/
theorem consume_eq (t : Turns) :
    ∃ taken session releases listening,
      consumeUpTo t.session.signalsPerTurn t.session = (taken, session) ∧
      t.consume = (taken,
        { session
          lines := t.lines
          ready := t.ready ++ releases
          yielded := (if taken.length = t.session.signalsPerTurn then [.consume] else []) ++
            t.yielded
          listening }) ∧
      (releases.map weight).sum ≤ 2 * taken.length := by
  rcases result : consumeUpTo t.session.signalsPerTurn t.session with ⟨taken, session⟩
  refine ⟨taken, session,
    if session.consumer.any (·.delay.isSome) then taken.map fun _ => .release else [],
    !decide (taken.length = t.session.signalsPerTurn), rfl, ?_, ?_⟩
  · simp only [consume, result, yieldIf_eq, decide_eq_true_eq]
  · split
    · simp [weight, Nat.mul_comm]
    · exact Nat.zero_le _

theorem isConsuming_of_turn {ready : List Activity} (h : t.ready = .consume :: ready)
    (sound : t.Sound) : t.session.isConsuming = true :=
  sound.consuming (.inl (by simp [h]))

theorem leads_consume {ready : List Activity} (h : t.ready = .consume :: ready)
    (sound : t.Sound) : t.Leads (consume { t with ready }).1 (consume { t with ready }).2 := by
  obtain ⟨taken, session, releases, listening, result, made, -⟩ := consume_eq { t with ready }
  obtain ⟨moments, path, own, same⟩ :=
    path_consumeUpTo t.session.signalsPerTurn (isConsuming_of_turn h sound)
  rw [result] at path same
  rw [made, ← same]
  exact leads_of_own path own rfl

theorem sound_consume {ready : List Activity} (h : t.ready = .consume :: ready)
    (sound : t.Sound) : (consume { t with ready }).2.Sound := by
  obtain ⟨taken, session, releases, listening, result, made, -⟩ := consume_eq { t with ready }
  have still := isConsuming_consumeUpTo t.session.signalsPerTurn t.session
  rw [result] at still
  rw [made]
  refine ⟨fun unread => ?_, fun _ => still.trans (isConsuming_of_turn h sound)⟩
  have inside := sound.unread unread
  rw [h] at inside
  simp only [List.cons_append, List.mem_cons, reduceCtorEq, false_or, List.mem_append] at inside
  rcases inside with inside | inside
  · simp [inside]
  · simp [inside]

theorem potential_consume {ready : List Activity} (h : t.ready = .consume :: ready) :
    (consume { t with ready }).2.potential + 2 ≤ t.potential := by
  obtain ⟨taken, session, releases, listening, result, made, few⟩ := consume_eq { t with ready }
  have queued := pending_consumeUpTo t.session.signalsPerTurn t.session
  have limit : 2 ≤ t.session.signalsPerTurn := by
    unfold signalsPerTurn
    split <;> decide
  simp only [result] at queued
  simp only [made, potential, h, List.map_append, List.sum_append, List.map_cons, List.sum_cons,
    List.cons_append, weight]
  by_cases full : taken.length = t.session.signalsPerTurn
  · simp only [full, if_true, List.map_cons, List.map_nil, List.sum_cons, List.sum_nil, weight]
    omega
  · simp only [full, if_false, List.map_nil, List.sum_nil]
    omega

theorem turn_release {ready : List Activity} (h : t.ready = .release :: ready) (sound : t.Sound) :
    t.Leads [] { t with ready, session := t.session.fireOldest } ∧
      Sound { t with ready, session := t.session.fireOldest } ∧
      potential { t with ready, session := t.session.fireOldest } + 2 ≤ t.potential := by
  have spared : t.session.fireOldest.monitor.channel = t.session.monitor.channel ∧
      t.session.fireOldest.isConsuming = t.session.isConsuming := by
    rcases fireOldest_cases t.session with same | ⟨timer, -, -, same⟩
    · rw [same]
      exact ⟨rfl, rfl⟩
    · rw [same, channel_fire, isConsuming_fire]
      exact ⟨rfl, rfl⟩
  have work : Relation.ReflTransGen Work t.session t.session.fireOldest := by
    rcases fireOldest_cases t.session with same | ⟨timer, waiting, due, same⟩
    · rw [same]
    · rw [same]
      exact .single (.fire waiting due)
  obtain ⟨moments, path, own, silent⟩ := path_of_silent_work work spared.1
  refine ⟨silent ▸ leads_of_own path own rfl, ⟨fun unread => ?_, fun active => ?_⟩, ?_⟩
  · have inside := sound.unread unread
    rw [h] at inside
    simpa using inside
  · refine spared.2.trans (sound.consuming ?_)
    rw [h]
    simpa using active
  · simp only [potential, h, spared.1, List.map_append, List.sum_append, List.map_cons,
      List.sum_cons, List.cons_append, weight]
    omega

theorem turn {a : Activity} {ready : List Activity} (h : t.ready = a :: ready) (sound : t.Sound) :
    t.Leads (take a { t with ready }).1 (take a { t with ready }).2 ∧
      (take a { t with ready }).2.Sound ∧
      (take a { t with ready }).2.potential + 2 ≤ t.potential := by
  cases a with
  | ingest => exact ⟨leads_ingest t ready, sound_ingest h sound, potential_ingest h⟩
  | consume => exact ⟨leads_consume h sound, sound_consume h sound, potential_consume h⟩
  | release => exact turn_release h sound

/-! ### All turns -/

theorem takeUpTo_spec (limit : Nat) (sound : t.Sound) :
    t.Leads (takeUpTo limit t).1 (takeUpTo limit t).2 ∧ (takeUpTo limit t).2.Sound ∧
      (takeUpTo limit t).2.potential ≤ t.potential ∧
      (t.ready ≠ [] → 0 < limit → (takeUpTo limit t).2.potential + 2 ≤ t.potential) := by
  induction limit generalizing t with
  | zero => exact ⟨leads_refl t, sound, Nat.le_refl _, fun _ some_turn => by omega⟩
  | succ limit ih =>
    rcases h : t.ready with _ | ⟨a, ready⟩
    · have ended : takeUpTo (limit + 1) t = ([], t) := by rw [takeUpTo, h]
      rw [ended]
      exact ⟨leads_refl t, sound, Nat.le_refl _, fun nonempty => absurd rfl nonempty⟩
    · obtain ⟨leads, sound', less⟩ := turn h sound
      obtain ⟨leads', sound'', less', -⟩ := ih sound'
      have taken : takeUpTo (limit + 1) t =
          ((take a { t with ready }).1 ++ (takeUpTo limit (take a { t with ready }).2).1,
            (takeUpTo limit (take a { t with ready }).2).2) := by rw [takeUpTo, h]
      rw [taken]
      exact ⟨leads.trans leads', sound'', Nat.le_trans less' (Nat.le_of_add_right_le less),
        fun _ _ => Nat.le_trans (Nat.add_le_add_right less' 2) less⟩

theorem potential_renew (t : Turns) : t.renew.potential = t.potential := by
  simp [renew, potential]

theorem Sound.renew (sound : t.Sound) : t.renew.Sound := by
  refine ⟨fun unread => ?_, fun active => ?_⟩
  · simpa [Turns.renew] using sound.unread unread
  · exact sound.consuming (by simpa [Turns.renew] using active)

theorem ready_of_potential (t : Turns) : t.ready ≠ [] → 2 ≤ t.potential := by
  intro nonempty
  obtain ⟨a, rest, h⟩ := List.exists_cons_of_ne_nil nonempty
  have heavy : 2 ≤ weight a := by cases a <;> decide
  simp only [potential, h, List.cons_append, List.map_cons, List.sum_cons]
  omega

/-- Rounds that are as many as half the potential leave nothing to be done. -/
theorem rounds_spec (limit : Nat) (sound : t.Sound) (fresh : t.yielded = [])
    (enough : t.potential ≤ 2 * limit) :
    t.Leads (rounds limit t).1 (rounds limit t).2 ∧ (rounds limit t).2.lines = [] := by
  induction limit generalizing t with
  | zero =>
    have idle : t.ready = [] := by
      by_contra nonempty
      have := ready_of_potential t nonempty
      omega
    refine ⟨leads_refl t, ?_⟩
    by_contra unread
    simpa [idle, fresh] using sound.unread unread
  | succ limit ih =>
    by_cases idle : t.ready = []
    · have ended : rounds (limit + 1) t = ([], t) := by rw [rounds, idle]; rfl
      rw [ended]
      refine ⟨leads_refl t, ?_⟩
      by_contra unread
      simpa [idle, fresh] using sound.unread unread
    · obtain ⟨leads, sound', -, less⟩ := takeUpTo_spec turnsPerRound sound
      have fewer := less idle (by decide)
      obtain ⟨leads', read⟩ := ih sound'.renew rfl (by rw [potential_renew]; omega)
      have renewed : (takeUpTo turnsPerRound t).2.Leads
          (rounds limit (takeUpTo turnsPerRound t).2.renew).1 _ := leads'
      have taken : rounds (limit + 1) t =
          ((takeUpTo turnsPerRound t).1 ++ (rounds limit (takeUpTo turnsPerRound t).2.renew).1,
            (rounds limit (takeUpTo turnsPerRound t).2.renew).2) := by
        rw [rounds, if_neg (by simpa using idle)]
      rw [taken]
      exact ⟨leads.trans renewed, read⟩

end Turns

/-- Ingesting lines is reporting their events in order, with the session's own work in between. -/
theorem path_ingest (lines : List (List Char)) (s : Session) :
    ∃ h, Path s h (s.ingest lines).2 ∧ given h = (reports lines).map .operate ∧
      printed h = (s.ingest lines).1 := by
  have sound : Turns.Sound ⟨s, lines, [.ingest], [], s.isConsuming⟩ :=
    ⟨fun _ => by simp, fun active => by simpa using active⟩
  have enough : Turns.potential ⟨s, lines, [.ingest], [], s.isConsuming⟩ ≤
      2 * (2 * (lines.length + s.monitor.channel.pending + 1)) := by
    simp [Turns.potential, Turns.weight]
    omega
  obtain ⟨⟨h, path, told, same⟩, read⟩ := Turns.rounds_spec _ sound rfl enough
  refine ⟨h, path, ?_, same⟩
  rw [read] at told
  simpa [reports] using told

end ScaleWatch.Session
