import ScaleWatch.Proofs.Channel.Traffic
import ScaleWatch.Proofs.Monitor.Sending
import ScaleWatch.Proofs.Session.Attended
import ScaleWatch.Proofs.Wire.Signals

/-!
# Every accepted signal is printed once

In a session with a consumer, what a slot of the stream holds and what it accepts is what is printed
from it, followed by what it still holds: this is so for every deed (`Does.conserves`), whatever the
order in which the consumer, the timers and the operations have their turns.  As all slots are empty
when no work is ready, each step prints exactly what was accepted in it.

A consumer that has stopped prints nothing, and the stream is closed then (`Tended`); so from then
on every signal is dropped.
-/

namespace ScaleWatch.Session

/-! ### What goes in and what comes out -/

namespace Moment

/-- The signal of an evaluation that fires, if it is accepted, and the slot that it goes to. -/
def accepted (m : Moment) : List (Nat × Signal) :=
  match m.deed with
  | .operate op =>
    match m.session.monitor.sent? op with
    | some s =>
      if (m.session.monitor.channel.emit op.worker s).1 then
        [(op.worker % m.session.monitor.channel.slots.length, s)]
      else []
    | none => []
  | _ => []

/-- The signal that is printed, and the slot that it is taken from. -/
def delivered (m : Moment) : List (Nat × Signal) :=
  match m.session.monitor.channel.front? with
  | some i => m.deed.printed.map (i, ·)
  | none => []

/-- An operation answers with a signal. -/
def isSignal (m : Moment) : Bool :=
  match m.deed with
  | .operate op => (m.session.operate op).1.isSignal
  | _ => false

/-- The counters that a deed counts up. -/
def postings (m : Moment) : List Counter :=
  match m.deed with
  | .operate op => m.session.monitor.postings op
  | _ => []

end Moment

def accepted (h : List Moment) : List (Nat × Signal) :=
  h.flatMap (·.accepted)

def delivered (h : List Moment) : List (Nat × Signal) :=
  h.flatMap (·.delivered)

/-- The signals among these that belong to slot `i`. -/
def onSlot (i : Nat) (signals : List (Nat × Signal)) : List Signal :=
  (signals.filter (·.1 = i)).map (·.2)

theorem onSlot_append (i : Nat) (l l' : List (Nat × Signal)) :
    onSlot i (l ++ l') = onSlot i l ++ onSlot i l' := by
  rw [onSlot, List.filter_append, List.map_append]
  rfl

theorem count_onSlot (i : Nat) (s : Signal) (l : List (Nat × Signal)) :
    (onSlot i l).count s = l.count (i, s) := by
  induction l with
  | nil => rfl
  | cons x rest ih =>
    obtain ⟨j, t⟩ := x
    rw [← List.singleton_append, onSlot_append, List.count_append, List.count_append, ih]
    by_cases here : j = i
    · subst here
      by_cases same : t = s <;> simp [onSlot, same]
    · simp [onSlot, here]

/-- Slot by slot the same signals are the same signals, in some order. -/
theorem perm_of_onSlot {l l' : List (Nat × Signal)} (same : ∀ i, onSlot i l = onSlot i l') :
    l.Perm l' := by
  rw [List.perm_iff_count]
  rintro ⟨i, s⟩
  rw [← count_onSlot, ← count_onSlot, same]

/-! ### The consumer and its stream -/

/-- The session has a consumer, whose stream is open while it runs, and empty after that. -/
structure Tended (s : Session) : Prop where
  consumed : ∃ c, s.consumer = some c
  streamOpen : s.monitor.channel.streamOpen = s.isConsuming
  closed : s.isConsuming = false → s.monitor.channel.pending = 0

section Tended

variable {s s' : Session} {h : List Moment} {deed : Deed}

theorem tended_new (settings : Monitor.Settings) (delay : Option Nat) :
    (Session.new (.new settings) true delay).Tended :=
  ⟨⟨_, rfl⟩, rfl, fun stopped => by cases stopped⟩

theorem consumed_schedule {c : Consumer} (consumed : s.consumer = some c) (k : Key) :
    ∃ c, (s.schedule k).consumer = some c := by
  rcases s.schedule_cases k with same | ⟨delay, running, generations, here⟩
  · exact ⟨c, by rw [same, consumed]⟩
  · rw [schedule_of_delay here]
    exact ⟨_, rfl⟩

theorem consumed_fire {c : Consumer} (consumed : s.consumer = some c) (t : Timer) :
    ∃ c, (fire t s).consumer = some c := by
  rcases fire_cases t s with same | ⟨c', here, newest⟩
  · exact ⟨c, by rw [same, consumed]⟩
  · rw [fire_of_newest here newest]
    exact ⟨_, rfl⟩

theorem Tended.operate (tended : s.Tended) (op : Monitor.Op) : (s.operate op).2.Tended := by
  obtain ⟨c, consumed⟩ := tended.consumed
  by_cases stream : op.isOnStream = true
  · rw [operate_of_onStream stream consumed]
    exact tended
  · have direct : op.isOnStream = false := by simpa using stream
    have streamOpen : (s.monitor.step op).2.channel.streamOpen = s.monitor.channel.streamOpen := by
      rw [Monitor.channel_step direct]
      cases s.monitor.sent? op with
      | none => rfl
      | some signal => exact Channel.streamOpen_emit _ _ _
    rw [operate_of_direct direct]
    refine ⟨⟨c, consumed⟩, streamOpen.trans tended.streamOpen, fun stopped => ?_⟩
    have same := Monitor.channel_of_closed direct (tended.streamOpen.trans stopped)
    exact (congrArg Channel.pending same).trans (tended.closed stopped)

theorem Tended.does (tended : s.Tended) (does : Does s deed s') : s'.Tended := by
  obtain ⟨c, consumed⟩ := tended.consumed
  cases does with
  | operate op => exact tended.operate op
  | @take signal channel running ready =>
    refine ⟨consumed_schedule (s := { s with monitor := { s.monitor with channel } }) consumed _,
      ?_, fun stopped => ?_⟩
    · rw [monitor_schedule, isConsuming_schedule]
      exact (Channel.streamOpen_of_tryRecv (Channel.tryRecv_of_poll ready)).trans tended.streamOpen
    · rw [isConsuming_schedule] at stopped
      exact absurd (running.symm.trans stopped) (by decide)
  | @fire t waiting due =>
    refine ⟨consumed_fire (s := { s with timers := s.timers.erase t }) consumed t, ?_, ?_⟩
    · rw [channel_fire, isConsuming_fire]
      exact tended.streamOpen
    · rw [channel_fire, isConsuming_fire]
      exact tended.closed
  | advance milliseconds => exact ⟨tended.consumed, tended.streamOpen, tended.closed⟩
  | stop =>
    rw [Session.stop, consumed]
    exact ⟨⟨_, rfl⟩, rfl, fun _ => Channel.pending_dropStream _⟩

theorem Tended.along (tended : s.Tended) (path : Path s h s') : s'.Tended :=
  path.invariant (P := fun _ s => s.Tended) (fun _ _ _ _ _ does tended => tended.does does) tended

/-- When no work is ready, no signal is queued, whether the consumer runs or has stopped. -/
theorem Tended.pending_of_settled (tended : s.Tended) (settled : s.Settled) :
    s.monitor.channel.pending = 0 := by
  by_cases running : s.isConsuming = true
  · exact s.monitor.channel.pending_eq_zero_iff.2 (settled.tryRecv running)
  · exact tended.closed (by simpa using running)

/-- Nothing but stopping it ends a consumer, and nothing starts it again. -/
theorem Does.isConsuming_iff (does : Does s deed s') :
    s'.isConsuming = true ↔ s.isConsuming = true ∧ deed ≠ .stop := by
  cases does with
  | operate op =>
    obtain ⟨monitor, same⟩ := operate_eq op s
    rw [same]
    simp [isConsuming]
  | take running ready =>
    rw [isConsuming_schedule]
    simp [isConsuming]
  | fire waiting due =>
    rw [isConsuming_fire]
    simp [isConsuming]
  | advance milliseconds => simp [isConsuming]
  | stop =>
    rcases consumed : s.consumer with _ | c <;> simp [Session.stop, isConsuming, consumed]

theorem Path.isConsuming_iff (path : Path s h s') :
    s'.isConsuming = true ↔ s.isConsuming = true ∧ .stop ∉ given h := by
  induction path with
  | done s => simp [given]
  | @next s after s' deed rest does _ ih =>
    rw [ih, does.isConsuming_iff, and_assoc]
    by_cases work : deed.isWork = true
    · rw [given_cons_of_work (m := ⟨s, deed⟩) work]
      have other : deed ≠ .stop := by
        rintro rfl
        cases work
      simp [other]
    · rw [given_cons_of_not_work (m := ⟨s, deed⟩) (by simpa using work), List.mem_cons, not_or]
      exact and_congr_right fun _ => and_congr_left fun _ => not_congr eq_comm

theorem stop_mem_deeds_iff (st : Step) : .stop ∈ st.deeds ↔ st = .shutdown := by
  cases st <;> simp [Step.deeds]

theorem Chronicle.isConsuming_iff {steps : List Step} (c : Chronicle s steps h s') :
    s'.isConsuming = true ↔ s.isConsuming = true ∧ .shutdown ∉ steps := by
  induction c with
  | done s => simp
  | step path asked _ _ ih =>
    rw [ih, path.isConsuming_iff, asked, stop_mem_deeds_iff, List.mem_cons, not_or, and_assoc]
    exact and_congr_right fun _ => and_congr_left fun _ => not_congr eq_comm

end Tended

/-! ### Slot by slot -/

section Conserved

variable {s s' : Session} {h h' : List Moment} {deed : Deed}

theorem accepted_cons (m : Moment) (h : List Moment) :
    accepted (m :: h) = m.accepted ++ accepted h :=
  List.flatMap_cons

theorem delivered_cons (m : Moment) (h : List Moment) :
    delivered (m :: h) = m.delivered ++ delivered h :=
  List.flatMap_cons

theorem accepted_append (h h' : List Moment) : accepted (h ++ h') = accepted h ++ accepted h' :=
  List.flatMap_append

theorem delivered_append (h h' : List Moment) : delivered (h ++ h') = delivered h ++ delivered h' :=
  List.flatMap_append

theorem accepted_of_silent {op : Monitor.Op} (silent : s.monitor.sent? op = none) :
    Moment.accepted ⟨s, .operate op⟩ = [] := by
  simp only [Moment.accepted, silent]

theorem accepted_of_sent {op : Monitor.Op} {signal : Signal}
    (sent : s.monitor.sent? op = some signal) :
    Moment.accepted ⟨s, .operate op⟩ =
      if s.monitor.channel.accepts op.worker = true then
        [(op.worker % s.monitor.channel.slots.length, signal)] else [] := by
  simp only [Moment.accepted, sent, Channel.fst_emit]

theorem delivered_of_not_printed {m : Moment} (silent : m.deed.printed = []) :
    m.delivered = [] := by
  unfold Moment.delivered
  rw [silent]
  split <;> rfl

theorem sent?_of_isOnStream {op : Monitor.Op} (stream : op.isOnStream = true) (m : Monitor) :
    m.sent? op = none := by
  have quiet := firing?_of_isOnStream stream m
  rw [Monitor.firing?_eq_sent?] at quiet
  exact Option.map_eq_none_iff.1 quiet

/-- What was printed came from the slots. -/
theorem Does.map_snd_delivered (does : Does s deed s') :
    (Moment.delivered ⟨s, deed⟩).map (·.2) = deed.printed := by
  cases does with
  | take running ready =>
    obtain ⟨i, front, -⟩ := Channel.queue_of_tryRecv (Channel.tryRecv_of_poll ready)
    simp [Moment.delivered, front, Deed.printed]
  | _ =>
    rw [delivered_of_not_printed rfl]
    rfl

theorem Path.map_snd_delivered (path : Path s h s') : (delivered h).map (·.2) = printed h := by
  induction path with
  | done s => rfl
  | next does _ ih =>
    rw [delivered_cons, List.map_append, does.map_snd_delivered, printed_cons, ih]

/-- What a slot held and accepts is what is printed from it and what it still holds.  Only a
consumer that stops would lose signals, if any were queued. -/
theorem Does.conserves (does : Does s deed s') (tended : s.Tended)
    (calm : deed = .stop → s.monitor.channel.pending = 0) (i : Nat) :
    s.monitor.channel.queue i ++ onSlot i (Moment.accepted ⟨s, deed⟩) =
      onSlot i (Moment.delivered ⟨s, deed⟩) ++ s'.monitor.channel.queue i := by
  obtain ⟨c, consumed⟩ := tended.consumed
  cases does with
  | operate op =>
    rw [delivered_of_not_printed rfl]
    by_cases stream : op.isOnStream = true
    · rw [operate_of_onStream stream consumed, accepted_of_silent (sent?_of_isOnStream stream _)]
      exact List.append_nil _
    · have direct : op.isOnStream = false := by simpa using stream
      rw [operate_of_direct direct]
      simp only [Monitor.channel_step direct]
      rcases sent : s.monitor.sent? op with _ | signal
      · rw [accepted_of_silent sent]
        exact List.append_nil _
      · rw [accepted_of_sent sent, Option.elim_some, Channel.queue_emit]
        by_cases accepts : s.monitor.channel.accepts op.worker = true
        · by_cases here : op.worker % s.monitor.channel.slots.length = i
          · simp [accepts, here, onSlot]
          · simp [accepts, here, onSlot]
        · simp [accepts, onSlot]
  | @take signal channel running ready =>
    obtain ⟨j, front, queues⟩ := Channel.queue_of_tryRecv (Channel.tryRecv_of_poll ready)
    rw [monitor_schedule, queues i]
    by_cases here : j = i
    · simp [Moment.accepted, Moment.delivered, Deed.printed, front, onSlot, here]
    · simp [Moment.accepted, Moment.delivered, Deed.printed, front, onSlot, here]
  | fire waiting due =>
    rw [delivered_of_not_printed rfl, channel_fire]
    exact List.append_nil _
  | advance milliseconds =>
    rw [delivered_of_not_printed rfl]
    exact List.append_nil _
  | stop =>
    rw [delivered_of_not_printed rfl, Channel.forall_queue_of_pending (calm rfl) i, Session.stop,
      consumed]
    exact (Channel.forall_queue_of_pending (Channel.pending_dropStream _) i).symm

theorem Path.conserves (path : Path s h s') (tended : s.Tended)
    (calm : ∀ m ∈ h, m.deed = .stop → m.session.monitor.channel.pending = 0) (i : Nat) :
    s.monitor.channel.queue i ++ onSlot i (accepted h) =
      onSlot i (delivered h) ++ s'.monitor.channel.queue i := by
  induction path with
  | done s => exact List.append_nil _
  | @next s after s' deed rest does _ ih =>
    obtain ⟨first, later⟩ := List.forall_mem_cons.1 calm
    have here := does.conserves tended first i
    have there := ih (tended.does does) later
    rw [accepted_cons, delivered_cons, onSlot_append, onSlot_append, ← List.append_assoc, here,
      List.append_assoc, there, List.append_assoc]

/-- A consumer that is stopped in a step from rest has nothing left to take. -/
theorem Path.calm_of_step {st : Step} (path : Path s h s') (tended : s.Tended)
    (settled : s.Settled) (asked : given h = st.deeds) :
    ∀ m ∈ h, m.deed = .stop → m.session.monitor.channel.pending = 0 := by
  intro m inside stops
  have stopped : .stop ∈ given h := stops ▸ mem_given inside (by rw [stops]; rfl)
  have shutdown := (stop_mem_deeds_iff st).1 (asked ▸ stopped)
  subst shutdown
  obtain ⟨after, rest, rfl, -, -, nothing⟩ := path.of_settled settled asked
  rcases List.mem_cons.1 inside with rfl | later
  · exact tended.pending_of_settled settled
  · have outside := mem_given later (by rw [stops]; rfl)
    rw [nothing] at outside
    cases outside

end Conserved

/-! ### The counters of signals -/

section Counted

variable {s s' : Session} {h : List Moment} {deed : Deed}

theorem Does.metrics (does : Does s deed s') (tended : s.Tended) :
    s'.monitor.metrics =
      (Moment.postings ⟨s, deed⟩).foldl Metrics.post s.monitor.metrics := by
  obtain ⟨c, consumed⟩ := tended.consumed
  cases does with
  | operate op =>
    by_cases stream : op.isOnStream = true
    · rw [operate_of_onStream stream consumed]
      cases op <;> first | rfl | cases stream
    · rw [operate_of_direct (by simpa using stream)]
      exact Monitor.metrics_step op s.monitor
  | take running ready =>
    rw [monitor_schedule]
    rfl
  | @fire t waiting due =>
    rcases fire_cases t { s with timers := s.timers.erase t } with same | ⟨c', here, newest⟩
    · rw [same]
      rfl
    · rw [fire_of_newest here newest, Monitor.clearGate_eq_elim]
      rfl
  | advance milliseconds => rfl
  | stop =>
    rw [Session.stop, consumed]
    rfl

theorem count_emitted_postings_eq (m : Moment) :
    m.postings.count .emitted = m.accepted.length := by
  obtain ⟨s, deed⟩ := m
  cases deed with
  | operate op =>
    refine (Monitor.count_emitted_eq op s.monitor).trans ?_
    rcases sent : s.monitor.sent? op with _ | signal
    · rw [accepted_of_silent sent]
      rfl
    · rw [accepted_of_sent sent]
      by_cases accepts : s.monitor.channel.accepts op.worker = true <;> simp [accepts]
  | _ => rfl

/-- The counter of emitted signals counts what is accepted. -/
theorem Path.emitted_eq (path : Path s h s') (tended : s.Tended) :
    s'.monitor.metrics.signalsEmitted =
      s.monitor.metrics.signalsEmitted + .ofNat (accepted h).length := by
  induction path with
  | done s => exact (UInt64.add_zero _).symm
  | @next s after s' deed rest does _ ih =>
    have first := congrArg (Metrics.value .emitted) (does.metrics tended)
    rw [Metrics.value_foldl_post, count_emitted_postings_eq] at first
    rw [ih (tended.does does), accepted_cons, List.length_append, UInt64.ofNat_add,
      ← UInt64.add_assoc]
    exact congrArg (· + _) first

/-- When the stream is closed, every signal is dropped. -/
theorem Does.dropped_of_stopped (does : Does s deed s') (tended : s.Tended)
    (stopped : s.isConsuming = false) :
    s'.monitor.metrics.signalsDropped = s.monitor.metrics.signalsDropped +
      if (Moment.isSignal ⟨s, deed⟩) = true then 1 else 0 := by
  have counted := congrArg (Metrics.value .dropped) (does.metrics tended)
  rw [Metrics.value_foldl_post] at counted
  refine counted.trans (congrArg (_ + ·) ?_)
  cases deed with
  | operate op =>
    obtain ⟨c, consumed⟩ := tended.consumed
    have refuses : s.monitor.channel.accepts op.worker = false :=
      decide_eq_false fun h => by
        have isOpen := h.1
        rw [tended.streamOpen, stopped] at isOpen
        cases isOpen
    have answers : (s.operate op).1.isSignal = (s.monitor.sent? op).isSome := by
      by_cases stream : op.isOnStream = true
      · rw [sent?_of_isOnStream stream]
        rw [← isSome_answerWithoutStream?, Option.isSome_iff_exists] at stream
        obtain ⟨a, answer⟩ := stream
        rw [Session.operate, consumed, Option.bind_some, answer]
        cases op <;> cases answer <;> rfl
      · rw [answer_of_direct (by simpa using stream), Monitor.isSignal_step]
    simp only [Moment.postings, Moment.isSignal, Monitor.count_dropped_eq, answers, refuses,
      and_true]
    split <;> rfl
  | _ => rfl

/-- A consumer that has stopped prints nothing. -/
theorem Path.printed_of_stopped (path : Path s h s') (stopped : s.isConsuming = false) :
    printed h = [] := by
  induction path with
  | done s => rfl
  | @next s after s' deed rest does _ ih =>
    have still : after.isConsuming = false := by
      rw [Bool.eq_false_iff, Ne, does.isConsuming_iff, stopped]
      simp
    rw [printed_cons, ih still, List.append_nil]
    cases does with
    | take running ready => exact absurd (running.symm.trans stopped) (by decide)
    | _ => rfl

end Counted

/-! ### Whole runs -/

/-- All that is printed while the steps are made. -/
def prints : List Step → Session → List Signal
  | [], _ => []
  | st :: steps, s => (s.step st).2.1 ++ prints steps (s.step st).2.2

theorem chronicle_step (st : Step) (s : Session) :
    ∃ h, Chronicle s [st] h (s.step st).2.2 ∧ printed h = (s.step st).2.1 := by
  obtain ⟨h, path, asked, first⟩ := path_act st s
  obtain ⟨own, settling, idle, later⟩ := path_settle (s.act st).2.2
  have all_asked : given (h ++ own) = st.deeds := by
    rw [given_append, idle, asked, List.append_nil]
  refine ⟨_, .step (path.append settling) all_asked (settles_settle _).2 (.done _), ?_⟩
  rw [List.append_nil, printed_append, first, later]
  rfl

/-- A run has a chronicle on which the same is printed. -/
theorem chronicle_run (steps : List Step) (s : Session) :
    ∃ h, Chronicle s steps h (run steps s) ∧ printed h = prints steps s := by
  induction steps generalizing s with
  | nil => exact ⟨[], .done s, rfl⟩
  | cons st steps ih =>
    obtain ⟨h, first, same⟩ := chronicle_step st s
    obtain ⟨h', rest, later⟩ := ih (s.step st).2.2
    exact ⟨h ++ h', first.append rest, by rw [printed_append, same, later]; rfl⟩

theorem Chronicle.conserves {s s' : Session} {steps : List Step} {h : List Moment}
    (c : Chronicle s steps h s') (tended : s.Tended) (settled : s.Settled) (i : Nat) :
    onSlot i (delivered h) = onSlot i (accepted h) := by
  induction c with
  | done s => rfl
  | @step s after s' st steps h h' path asked settled' _ ih =>
    have calm := path.calm_of_step tended settled asked
    have here := path.conserves tended calm i
    have rest := ih (tended.along path) settled'
    rw [Channel.forall_queue_of_pending (tended.pending_of_settled settled),
      Channel.forall_queue_of_pending ((tended.along path).pending_of_settled settled'),
      List.nil_append, List.append_nil] at here
    rw [accepted_append, delivered_append, onSlot_append, onSlot_append, here, rest]

/-- What a step prints, when `past` was before it, `h` happened in it, and `s` is the session at
rest after it. -/
structure PrintsAccepted (past h : List Moment) (s : Session) : Prop where
  emptied : ∀ queue ∈ s.monitor.channel.slots, queue = []
  /-- What is printed is taken from the slots; from each slot it is what that slot accepted, in the
  same order. -/
  fromSlots : (delivered h).map (·.2) = printed h
  inOrder : ∀ i, onSlot i (delivered h) = onSlot i (accepted h)
  once : (printed h).Perm ((accepted h).map (·.2))
  /-- A signal that was accepted tells of an evaluation that answered with it. -/
  justified : ∀ m ∈ h, ∀ x ∈ m.accepted, ∃ op t b count, m.deed = .operate op ∧
    m.session.monitor.effect op = .judge op.worker x.2.key t b count ∧
    (m.session.operate op).1 = .signal (some x.2.direction) ∧
    x.2.bufferLength = some b.bufferLength
  readable : ∀ signal ∈ printed h, '\n' ∉ signal.line.toList ∧
    Signal.ofJsonText signal.line.toList = .ok signal
  counted : s.monitor.metrics.signalsEmitted = .ofNat (printed (past ++ h)).length

/-- What happens in a step when the consumer has stopped. -/
structure DropsAll (h : List Moment) : Prop where
  silent : printed h = []
  dropped : ∀ m ∈ h, (m.session.perform m.deed).monitor.metrics.signalsDropped =
    m.session.monitor.metrics.signalsDropped + if m.isSignal = true then 1 else 0

section Runs

variable {s s' : Session} {past h : List Moment} {st : Step} {steps : List Step}

theorem Chronicle.tended (c : Chronicle s steps h s') (tended : s.Tended) : s'.Tended :=
  tended.along c.path

theorem justified_of_accepted {m : Moment} {x : Nat × Signal} (inside : x ∈ m.accepted) :
    ∃ op t b count, m.deed = .operate op ∧
      m.session.monitor.effect op = .judge op.worker x.2.key t b count ∧
      (m.session.operate op).1 = .signal (some x.2.direction) ∧
      x.2.bufferLength = some b.bufferLength := by
  obtain ⟨s, deed⟩ := m
  cases deed with
  | operate op =>
    rcases sent : s.monitor.sent? op with _ | signal
    · rw [accepted_of_silent sent] at inside
      cases inside
    · rw [accepted_of_sent sent] at inside
      have here : x.2 = signal := by
        split at inside
        · rw [List.mem_singleton.1 inside]
        · cases inside
      obtain ⟨t, b, count, judged, fired, same⟩ := Monitor.judge_of_sent? sent
      have direct : op.isOnStream = false := by
        by_contra stream
        rw [sent?_of_isOnStream (by simpa using stream)] at sent
        cases sent
      rw [here]
      refine ⟨op, t, b, count, rfl, judged, ?_, same⟩
      rw [answer_of_direct direct, Monitor.answer_of_judge judged, fired]
  | _ => cases inside

/-- In a chronicle, as many signals are printed as are accepted, and they are the same. -/
theorem Chronicle.perm_printed (c : Chronicle s steps h s') (tended : s.Tended)
    (settled : s.Settled) : (printed h).Perm ((accepted h).map (·.2)) := by
  rw [← c.path.map_snd_delivered]
  exact (perm_of_onSlot (c.conserves tended settled)).map _

theorem printsAccepted (before : Chronicle s steps past s') {s'' : Session}
    (step : Chronicle s' [st] h s'') (tended : s.Tended) (settled : s.Settled)
    (fresh : s.monitor.metrics.signalsEmitted = 0) : PrintsAccepted past h s'' := by
  have tended' := before.tended tended
  have settled' := before.settled settled
  have whole := before.append step
  have empty := (step.tended tended').pending_of_settled (step.settled settled')
  refine ⟨?_, step.path.map_snd_delivered, step.conserves tended' settled',
    step.perm_printed tended' settled', fun m _ x inside => justified_of_accepted inside,
    fun signal _ => ⟨signal.feed_not_mem_line, signal.ofJsonText_line⟩, ?_⟩
  · exact (Channel.forall_queue_eq_nil_iff _).1 (Channel.forall_queue_of_pending empty)
  · rw [whole.path.emitted_eq tended, fresh, (whole.perm_printed tended settled).length_eq,
      List.length_map]
    exact UInt64.zero_add _

theorem Path.dropsAll (path : Path s h s') (tended : s.Tended) (stopped : s.isConsuming = false) :
    DropsAll h := by
  refine ⟨path.printed_of_stopped stopped, fun m inside => ?_⟩
  obtain ⟨earlier, later, rfl⟩ := List.mem_iff_append.1 inside
  obtain ⟨after, before, does, -⟩ := path.at
  have still : m.session.isConsuming = false := by
    rw [Bool.eq_false_iff, Ne, before.isConsuming_iff, stopped]
    simp
  rw [← does.eq_perform]
  exact does.dropped_of_stopped (tended.along before) still

end Runs

/-- The consumer prints every signal that is accepted exactly once, in the step in which it is
accepted; this holds whatever the order of the work in a step, and so of what `Session.step` makes
of it. -/
theorem accepted_signals_printed_once (settings : Monitor.Settings) (delay : Option Nat)
    (steps : List Step) (st : Step) :
    let start := Session.new (.new settings) true delay
    (∀ past s h s', Chronicle start steps past s → Chronicle s [st] h s' →
      PrintsAccepted past h s' ∧ (s.isConsuming = true ↔ .shutdown ∉ steps) ∧
        (.shutdown ∈ steps → DropsAll h)) ∧
      ∃ past h, Chronicle start steps past (run steps start) ∧
        Chronicle (run steps start) [st] h ((run steps start).step st).2.2 ∧
        printed past = prints steps start ∧ printed h = ((run steps start).step st).2.1 := by
  intro start
  have tended : start.Tended := tended_new settings delay
  have settled : start.Settled := settled_new settings true delay
  refine ⟨fun past s h s' before step => ?_, ?_⟩
  · have runs : s.isConsuming = true ↔ .shutdown ∉ steps := by
      rw [before.isConsuming_iff]
      exact and_iff_right rfl
    refine ⟨printsAccepted before step tended settled rfl, runs, fun shutdown => ?_⟩
    refine step.path.dropsAll (before.tended tended) ?_
    rw [Bool.eq_false_iff, Ne, runs, not_not]
    exact shutdown
  · obtain ⟨past, before, same⟩ := chronicle_run steps start
    obtain ⟨h, step, later⟩ := chronicle_step st (run steps start)
    exact ⟨past, h, before, step, same, later⟩

end ScaleWatch.Session
