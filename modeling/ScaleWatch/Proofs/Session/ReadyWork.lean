import Mathlib.Logic.Relation
import ScaleWatch.Proofs.Monitor.Effect
import ScaleWatch.Session.Step

/-!
# Ready work, in any order

Between two steps of a session all work that is ready gets done: the consumer takes the signals
that are queued, and the timers whose time has come fire.  Nothing fixes the order.  `Work` is one
piece of it, `Settles` all of it in some order, and `Runs` a list of steps with all ready work done
after each.  The order in which `Session.settle` does the work is one of them (`settles_settle`),
so what holds of all runs holds of `Session.run`.
-/

namespace ScaleWatch.Session

/-- One piece of ready work: the consumer takes a signal, or a timer whose time has come fires. -/
inductive Work : Session → Session → Prop where
  | take {s : Session} {signal : Signal} {channel : Channel} (running : s.isConsuming)
      (ready : s.monitor.channel.poll = (.ready signal, channel)) :
      Work s ({ s with monitor := { s.monitor with channel } }.schedule signal.key)
  | fire {s : Session} {t : Timer} (waiting : t ∈ s.timers) (due : t.due ≤ s.now) :
      Work s (fire t { s with timers := s.timers.erase t })

/-- No work is ready. -/
def Settled (s : Session) : Prop :=
  ∀ s', ¬Work s s'

/-- All ready work is done, in some order. -/
def Settles (s s' : Session) : Prop :=
  Relation.ReflTransGen Work s s' ∧ s'.Settled

/-- Steps from one session to another, with all ready work done after each in some order. -/
inductive Runs : Session → List Step → Session → Prop where
  | done (s : Session) : Runs s [] s
  | step {s s' s'' : Session} {st : Step} {steps : List Step} (settles : Settles (s.act st).2.2 s')
      (rest : Runs s' steps s'') : Runs s (st :: steps) s''

/-- The steps one after the other, as `Session.step` makes them. -/
def run (steps : List Step) (s : Session) : Session :=
  steps.foldl (fun s st => (s.step st).2.2) s

/-! ### Scheduling and firing -/

theorem schedule_of_delay {s : Session} {delay : Nat} {running : Bool}
    {generations : Key → Option Nat} (h : s.consumer = some ⟨some delay, running, generations⟩)
    (k : Key) :
    s.schedule k = { s with
      consumer := some ⟨some delay, running, fun k' =>
        if k' = k then some ((generations k).getD 0 + 1) else generations k'⟩
      timers := s.timers ++ [⟨k, (generations k).getD 0 + 1, s.now + delay⟩] } := by
  rw [schedule, h]

theorem schedule_of_no_delay {s : Session} {running : Bool} {generations : Key → Option Nat}
    (h : s.consumer = some ⟨none, running, generations⟩) (k : Key) : s.schedule k = s := by
  rw [schedule, h]

theorem schedule_cases (k : Key) (s : Session) :
    s.schedule k = s ∨
      ∃ delay running generations, s.consumer = some ⟨some delay, running, generations⟩ := by
  rcases h : s.consumer with _ | ⟨_ | delay, running, generations⟩
  · exact .inl (by rw [schedule, h])
  · exact .inl (schedule_of_no_delay h k)
  · exact .inr ⟨delay, running, generations, rfl⟩

theorem monitor_schedule (k : Key) (s : Session) : (s.schedule k).monitor = s.monitor := by
  rcases s.schedule_cases k with h | ⟨delay, running, generations, h⟩
  · rw [h]
  · rw [schedule_of_delay h]

theorem isConsuming_schedule (k : Key) (s : Session) :
    (s.schedule k).isConsuming = s.isConsuming := by
  rcases s.schedule_cases k with h | ⟨delay, running, generations, h⟩
  · rw [h]
  · rw [schedule_of_delay h, isConsuming, isConsuming, h]
    rfl

theorem fire_of_newest {s : Session} {c : Consumer} (h : s.consumer = some c) {t : Timer}
    (newest : c.generations t.key = some t.generation) :
    fire t s = { s with
      consumer := some { c with
        generations := fun k => if k = t.key then none else c.generations k }
      monitor := (s.monitor.clearGate t.key).2 } := by
  rw [fire, h]
  exact if_pos newest

theorem fire_of_stale {s : Session} {c : Consumer} (h : s.consumer = some c) {t : Timer}
    (stale : c.generations t.key ≠ some t.generation) : fire t s = s := by
  rw [fire, h]
  exact if_neg stale

theorem fire_cases (t : Timer) (s : Session) :
    fire t s = s ∨ ∃ c, s.consumer = some c ∧ c.generations t.key = some t.generation := by
  rcases h : s.consumer with _ | c
  · exact .inl (by rw [fire, h])
  · by_cases newest : c.generations t.key = some t.generation
    · exact .inr ⟨c, rfl, newest⟩
    · exact .inl (fire_of_stale h newest)

/-- Firing a timer leaves the timers that wait alone. -/
theorem fire_with_timers (t : Timer) (s : Session) (timers : List Timer) :
    fire t { s with timers } = { fire t s with timers } := by
  rcases s with ⟨now, monitor, _ | c, waiting⟩
  · rfl
  · simp only [fire]
    split <;> rfl

theorem channel_clearGate (k : Key) (m : Monitor) : (m.clearGate k).2.channel = m.channel :=
  (Monitor.leads_clearGate k m).channel

theorem now_fire (t : Timer) (s : Session) : (fire t s).now = s.now := by
  rcases fire_cases t s with h | ⟨c, hc, newest⟩
  · rw [h]
  · rw [fire_of_newest hc newest]

theorem timers_fire (t : Timer) (s : Session) : (fire t s).timers = s.timers := by
  rcases fire_cases t s with h | ⟨c, hc, newest⟩
  · rw [h]
  · rw [fire_of_newest hc newest]

theorem channel_fire (t : Timer) (s : Session) :
    (fire t s).monitor.channel = s.monitor.channel := by
  rcases fire_cases t s with h | ⟨c, hc, newest⟩
  · rw [h]
  · rw [fire_of_newest hc newest]
    exact channel_clearGate _ _

theorem isConsuming_fire (t : Timer) (s : Session) : (fire t s).isConsuming = s.isConsuming := by
  rcases fire_cases t s with h | ⟨c, hc, newest⟩
  · rw [h]
  · rw [fire_of_newest hc newest, isConsuming, isConsuming, hc]
    rfl

/-! ### The order that `settle` takes -/

theorem consumeUpTo_succ (limit : Nat) (s : Session) :
    consumeUpTo (limit + 1) s =
      match s.monitor.channel.tryRecv with
      | none => ([], s)
      | some (signal, channel) =>
        (signal :: (consumeUpTo limit
            ({ s with monitor := { s.monitor with channel } }.schedule signal.key)).1,
          (consumeUpTo limit
            ({ s with monitor := { s.monitor with channel } }.schedule signal.key)).2) := by
  rw [consumeUpTo, Channel.poll_eq]
  rcases s.monitor.channel.tryRecv with _ | ⟨signal, channel⟩
  · cases s.monitor.channel.emitterOpen <;> rfl
  · rfl

theorem work_consumeUpTo (limit : Nat) {s : Session} (running : s.isConsuming) :
    Relation.ReflTransGen Work s (consumeUpTo limit s).2 := by
  induction limit generalizing s with
  | zero => exact .refl
  | succ limit ih =>
    rw [consumeUpTo_succ]
    rcases h : s.monitor.channel.tryRecv with _ | ⟨signal, channel⟩
    · exact .refl
    · have ready : s.monitor.channel.poll = (.ready signal, channel) := by rw [Channel.poll_eq, h]
      refine .head (Work.take running ready) (ih ?_)
      rwa [isConsuming_schedule]

theorem channel_consumeUpTo (limit : Nat) (s : Session) :
    (consumeUpTo limit s).2.monitor.channel = (Channel.drainUpTo limit s.monitor.channel).2 := by
  induction limit generalizing s with
  | zero => rfl
  | succ limit ih =>
    rw [consumeUpTo_succ, Channel.drainUpTo]
    rcases s.monitor.channel.tryRecv with _ | ⟨signal, channel⟩
    · rfl
    · simp only [ih, monitor_schedule]

theorem work_consume (s : Session) : Relation.ReflTransGen Work s s.consume.2 := by
  unfold consume
  split
  · next running => exact work_consumeUpTo _ running
  · exact .refl

theorem not_ready_consume {s : Session} (running : s.consume.2.isConsuming) :
    s.consume.2.monitor.channel.tryRecv = none := by
  by_cases consuming : s.isConsuming
  · rw [consume, if_pos consuming, channel_consumeUpTo]
    exact Channel.tryRecv_drainUpTo (Nat.le_refl _)
  · rw [consume, if_neg consuming] at running
    exact absurd running consuming

/-- Firing the oldest due timer first, and then the others, is firing all of them. -/
theorem fireDue_eq {s : Session} {t : Timer} {due : List Timer}
    (h : s.timers.filter (·.due ≤ s.now) = t :: due) :
    t ∈ s.timers ∧ t.due ≤ s.now ∧
      s.fireDue = (fire t { s with timers := s.timers.erase t }).fireDue := by
  obtain ⟨early, late, split, waiting, isDue, rest⟩ := List.filter_eq_cons_iff.1 h
  have tDue : t.due ≤ s.now := by simpa using isDue
  have fresh : t ∉ early := fun inside => waiting t inside isDue
  refine ⟨by simp [split], tDue, ?_⟩
  have erased : s.timers.erase t = early ++ late := by
    rw [split, List.erase_append_right _ fresh, List.erase_cons_head]
  have dueErased : (early ++ late).filter (·.due ≤ s.now) = due := by
    rw [List.filter_append, rest, List.filter_eq_nil_iff.2 waiting, List.nil_append]
  have laterErased : (early ++ late).filter (s.now < ·.due) = s.timers.filter (s.now < ·.due) := by
    simp [split, Nat.not_lt.2 tDue]
  rw [erased]
  simp only [fireDue, h, List.foldl_cons, now_fire, dueErased, laterErased, fire_with_timers]

theorem work_fireDue (s : Session) : Relation.ReflTransGen Work s s.fireDue := by
  generalize h : s.timers.filter (·.due ≤ s.now) = due
  induction due generalizing s with
  | nil =>
    have none_due := List.filter_eq_nil_iff.1 h
    have all_later : s.timers.filter (s.now < ·.due) = s.timers :=
      List.filter_eq_self.2 fun t ht => by simpa using none_due t ht
    rw [fireDue, h, all_later]
    exact .refl
  | cons t due ih =>
    obtain ⟨waiting, isDue, same⟩ := fireDue_eq h
    rw [same]
    refine .head (Work.fire waiting isDue) (ih _ ?_)
    obtain ⟨early, late, split, before, hit, rest⟩ := List.filter_eq_cons_iff.1 h
    rw [timers_fire, now_fire, split, List.erase_append_right _ fun inside => before t inside hit,
      List.erase_cons_head, List.filter_append, rest, List.filter_eq_nil_iff.2 before,
      List.nil_append]

theorem foldl_fire (due : List Timer) (s : Session) :
    let after := due.foldl (fun s t => fire t s) s
    after.timers = s.timers ∧ after.now = s.now ∧ after.monitor.channel = s.monitor.channel ∧
      after.isConsuming = s.isConsuming := by
  induction due generalizing s with
  | nil => exact ⟨rfl, rfl, rfl, rfl⟩
  | cons t due ih =>
    obtain ⟨timers, now, channel, consuming⟩ := ih (fire t s)
    exact ⟨timers.trans (timers_fire t s), now.trans (now_fire t s),
      channel.trans (channel_fire t s), consuming.trans (isConsuming_fire t s)⟩

theorem settles_settle (s : Session) : Settles s s.settle.2 := by
  refine ⟨(work_consume s).trans (work_fireDue _), fun s' work => ?_⟩
  obtain ⟨timers, now, channel, consuming⟩ := foldl_fire
    (s.consume.2.timers.filter (·.due ≤ s.consume.2.now))
    { s.consume.2 with timers := s.consume.2.timers.filter (s.consume.2.now < ·.due) }
  cases work with
  | take running ready =>
    have notReady := not_ready_consume (consuming.symm.trans running)
    rw [show s.settle.2.monitor.channel = _ from channel] at ready
    have taken := Channel.tryRecv_of_poll ready
    rw [notReady] at taken
    cases taken
  | fire waiting due =>
    rw [show s.settle.2.timers = _ from timers, List.mem_filter] at waiting
    rw [show s.settle.2.now = _ from now] at due
    exact absurd due (by simpa using waiting.2)

/-- What `Session.step` does is one of the orders. -/
theorem runs_run (steps : List Step) (s : Session) : Runs s steps (run steps s) := by
  induction steps generalizing s with
  | nil => exact .done s
  | cons st rest ih => exact .step (settles_settle _) (ih _)

end ScaleWatch.Session
