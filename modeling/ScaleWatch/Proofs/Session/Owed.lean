import ScaleWatch.Proofs.Session.Account

/-!
# The release that a session owes to a key

A signal that is queued is going to be taken before time passes, and a signal that was taken leads
to a release of the gate of its key.  So a session owes a key the release of its gate, at a time
that can be told from its timers, its generations and its queue (`Owes`).  Only a signal of the key
that is accepted puts the release off, to one delay from then; other operations do not, and neither
does the session's own work.

When all ready work is done, the gate has been released exactly if the time had come
(`Path.pays_off`).
-/

namespace ScaleWatch.Session

/-- A signal of the key is queued. -/
def queues (k : Key) (s : Session) : Bool :=
  s.monitor.channel.queued.any (·.key = k)

/-- No release of the gate of the key is on its way. -/
def Unscheduled (k : Key) (s : Session) : Prop :=
  s.generation? k = none ∧ s.queues k = false

/-- The gate of the key is going to be released at the time `due`, if that is given.  While the
ready work is being done, it may have been released already. -/
def Owes (k : Key) (delay : Nat) (due : Option Nat) (released : Prop) (s : Session) : Prop :=
  ∃ deadline, Tracks s.now s.timers k deadline released (s.generation? k) ∧
    due = if s.queues k then some (s.now + delay) else deadline

/-! ### The queue -/

section Queue

variable {s : Session} {k : Key} {op : Monitor.Op} {c : Consumer}

theorem queues_of_pending (empty : s.monitor.channel.pending = 0) (k : Key) :
    s.queues k = false := by
  have none_left : s.monitor.channel.queued = [] := List.eq_nil_of_length_eq_zero empty
  rw [queues, none_left]
  rfl

/-- A signal of the key that is accepted is queued. -/
theorem queues_of_accepts (fires : Moment.Fires k ⟨s, .operate op⟩)
    (accepts : s.monitor.channel.accepts op.worker = true) :
    (s.operate op).2.queues k = true := by
  obtain ⟨d, firing⟩ := fires
  obtain ⟨n, queued⟩ := queued_of_fires firing
  rw [if_pos accepts] at queued
  rw [queues, queued.any_eq]
  simp

/-- Nothing else that an operation does shows in the queue of the key. -/
theorem queues_of_not_accepts (consumed : s.consumer = some c)
    (unsent : Moment.Fires k ⟨s, .operate op⟩ → s.monitor.channel.accepts op.worker = false) :
    (s.operate op).2.queues k = s.queues k := by
  rcases firing : s.monitor.firing? op with _ | ⟨k', d⟩
  · rw [queues, channel_of_not_fires consumed firing, queues]
  · obtain ⟨n, queued⟩ := queued_of_fires firing
    rw [queues, queued.any_eq, queues]
    by_cases here : k' = k
    · subst here
      rw [unsent ⟨d, firing⟩]
      rfl
    · split <;> simp [here]

end Queue

/-! ### What is done to a session that owes -/

section Owes

variable {s s' : Session} {k : Key} {delay : Nat} {due : Option Nat} {released : Prop}

theorem Attended.owes (attended : Attended delay s) (k : Key) :
    ∃ due, Owes k delay due False s := by
  obtain ⟨running, generations, consumer, tracks⟩ := attended.consumer
  obtain ⟨deadline, tracked⟩ := tracks k
  refine ⟨_, deadline, ?_, rfl⟩
  rw [generation?, consumer]
  exact tracked

theorem Owes.nothing (owes : Owes k delay due False s) (unscheduled : Unscheduled k s) :
    due = none := by
  obtain ⟨free, unqueued⟩ := unscheduled
  obtain ⟨deadline, tracked, rfl⟩ := owes
  rw [free] at tracked
  obtain ⟨-, ⟨nothing, -⟩ | ⟨-, -, -, impossible⟩⟩ := tracked
  · rw [unqueued, nothing]
    rfl
  · exact impossible.elim

theorem Owes.take (owes : Owes k delay due released s) (attended : Attended delay s)
    {signal : Signal} {channel : Channel}
    (ready : s.monitor.channel.poll = (.ready signal, channel))
    (apart : delay = 0 ∨ (∀ t ∈ s.timers, s.now < t.due) ∧ ¬released) :
    Owes k delay due released
      ({ s with monitor := { s.monitor with channel } }.schedule signal.key) := by
  obtain ⟨running, generations, consumer, -⟩ := attended.consumer
  obtain ⟨deadline, tracked, same⟩ := owes
  have taken := (Channel.perm_of_tryRecv (Channel.tryRecv_of_poll ready)).any_eq (f := (·.key = k))
  rw [generation?, consumer, Option.bind_some] at tracked
  rw [schedule_of_delay (s := { s with monitor := { s.monitor with channel } }) consumer]
  by_cases here : k = signal.key
  · subst here
    have queued : s.queues signal.key = true := by
      rw [queues, ← taken]
      simp
    rw [queued, if_pos rfl] at same
    refine ⟨some (s.now + delay), ?_, ?_⟩
    · simpa [generation?] using tracked.renew attended.bounded apart
    · rw [same, ite_self]
  · refine ⟨deadline, ?_, ?_⟩
    · simpa [generation?, here] using tracked.append_other (Ne.symm here)
    · rw [same, queues, ← taken, List.any_cons, decide_eq_false (Ne.symm here), Bool.false_or]
      rfl

/-- A timer that counts for the key releases its gate. -/
theorem Owes.fire_newest (owes : Owes k delay due released s) {t : Timer} (waiting : t ∈ s.timers)
    (come : t.due ≤ s.now) (of_key : t.key = k) (newest : s.generation? k = some t.generation) :
    Owes k delay due True (fire t { s with timers := s.timers.erase t }) ∧
      (fire t { s with timers := s.timers.erase t }).monitor.registry.find? k =
        (s.monitor.registry.find? k).map Agenda.released := by
  subst of_key
  obtain ⟨deadline, tracked, same⟩ := owes
  obtain ⟨c, consumer, current⟩ := Option.bind_eq_some_iff.1 newest
  obtain ⟨registry, cleared, -, -, find⟩ := Agenda.clearGate_eq t.key s.monitor
  rw [newest] at tracked
  rw [fire_of_newest (s := { s with timers := s.timers.erase t }) consumer current, cleared]
  refine ⟨⟨deadline, ?_, same⟩, ?_⟩
  · simpa [generation?] using tracked.fire_newest waiting rfl come
  · exact (find t.key).trans (if_pos rfl)

/-- No other timer does anything to the key. -/
theorem Owes.fire_other (owes : Owes k delay due released s) {t : Timer}
    (other : t.key = k → s.generation? k ≠ some t.generation) :
    Owes k delay due released (fire t { s with timers := s.timers.erase t }) ∧
      (fire t { s with timers := s.timers.erase t }).monitor.registry.find? k =
        s.monitor.registry.find? k := by
  obtain ⟨deadline, tracked, same⟩ := owes
  have stale : t.key = k → ∀ c,
      ({ s with timers := s.timers.erase t } : Session).consumer = some c →
        c.generations k ≠ some t.generation := by
    intro of_key c consumed newest
    refine other of_key ?_
    rw [generation?, show s.consumer = some c from consumed]
    exact newest
  refine ⟨⟨deadline, ?_, ?_⟩, ?_⟩
  · rw [now_fire, timers_fire, generation?_fire stale]
    exact tracked.fire_stale other
  · rw [same, now_fire, queues, queues, channel_fire]
  · rcases fire_cases t { s with timers := s.timers.erase t } with idle | ⟨c, consumed, newest⟩
    · rw [idle]
    · have apart : ¬k = t.key := by
        rintro rfl
        exact stale rfl c consumed newest
      obtain ⟨registry, cleared, -, -, find⟩ := Agenda.clearGate_eq t.key s.monitor
      rw [fire_of_newest consumed newest, cleared]
      exact (find k).trans (if_neg apart)

theorem Owes.accepted (owes : Owes k delay due released s) {op : Monitor.Op}
    (fires : Moment.Fires k ⟨s, .operate op⟩)
    (accepts : s.monitor.channel.accepts op.worker = true) :
    Owes k delay (some (s.now + delay)) released (s.operate op).2 := by
  obtain ⟨deadline, tracked, -⟩ := owes
  have queued := queues_of_accepts fires accepts
  obtain ⟨monitor, same⟩ := operate_eq op s
  rw [same] at queued ⊢
  exact ⟨deadline, tracked, by rw [queued]; rfl⟩

theorem Owes.operate (owes : Owes k delay due released s) {c : Consumer}
    (consumed : s.consumer = some c) {op : Monitor.Op}
    (unsent : Moment.Fires k ⟨s, .operate op⟩ → s.monitor.channel.accepts op.worker = false) :
    Owes k delay due released (s.operate op).2 := by
  obtain ⟨deadline, tracked, due_eq⟩ := owes
  have queued := queues_of_not_accepts consumed unsent
  obtain ⟨monitor, same⟩ := operate_eq op s
  rw [same] at queued ⊢
  exact ⟨deadline, tracked, by rw [queued]; exact due_eq⟩

theorem Owes.advance (owes : Owes k delay due False s) (empty : s.monitor.channel.pending = 0)
    (milliseconds : Nat) : Owes k delay due False { s with now := s.now + milliseconds } := by
  obtain ⟨deadline, tracked, same⟩ := owes
  refine ⟨deadline, tracked.later (Nat.le_add_right _ _), ?_⟩
  rw [queues_of_pending empty] at same
  rw [queues_of_pending (s := { s with now := s.now + milliseconds }) empty]
  exact same

theorem Owes.stop (owes : Owes k delay due released s) {c : Consumer}
    (consumed : s.consumer = some c) (empty : s.monitor.channel.pending = 0) :
    Owes k delay due released s.stop := by
  obtain ⟨deadline, tracked, same⟩ := owes
  rw [queues_of_pending empty] at same
  rw [generation?, consumed] at tracked
  rw [Session.stop, consumed]
  refine ⟨deadline, tracked, ?_⟩
  rw [queues_of_pending (Channel.pending_dropStream _)]
  exact same

/-- When all ready work is done, what had come due has been released. -/
theorem Owes.settled (owes : Owes k delay due released s) (attended : Attended delay s)
    (settled : s.Settled) :
    Owes k delay (due.filter (s.now < ·)) False s ∧ (released ↔ due.any (· ≤ s.now)) := by
  obtain ⟨deadline, tracked, same⟩ := owes
  have unqueued := queues_of_pending (attended.pending_of_settled settled) k
  obtain ⟨tracked, paid⟩ := tracked.settled fun t inside => settled.ahead inside
  rw [unqueued, if_neg Bool.false_ne_true] at same
  subst same
  exact ⟨⟨_, tracked, by rw [unqueued, if_neg Bool.false_ne_true]⟩, paid⟩

end Owes

/-! ### The session's own work -/

/-- While the ready work is being done: what was owed to a key when it was under the pressure `p`,
and whether it has been paid off. -/
structure PayingOff (k : Key) (delay : Nat) (due : Option Nat) (p : Option Pressure) (now : Nat)
    (released : Bool) (s : Session) : Prop where
  attended : Attended delay s
  owes : Owes k delay due (released = true) s
  find : s.monitor.registry.find? k = if released then p.map Agenda.released else p
  now : s.now = now
  /-- With a delay, no signal is taken after a timer has fired. -/
  apart : released = true → delay = 0 ∨ s.monitor.channel.pending = 0

section Work

variable {s s' : Session} {k : Key} {delay now : Nat} {due : Option Nat} {p : Option Pressure}
  {released : Bool} {deed : Deed}

theorem PayingOff.does (paying : PayingOff k delay due p now released s) (does : Does s deed s')
    (work : deed.isWork = true) (orderly : Moment.Orderly delay ⟨s, deed⟩) :
    ∃ released, PayingOff k delay due p now released s' := by
  obtain ⟨attended, owes, find, time, apart⟩ := paying
  have attended' := attended.does does orderly
  cases does with
  | @take signal channel running ready =>
    -- a signal that is taken after the release would bring another one
    have busy : s.monitor.channel.pending ≠ 0 := fun empty => not_ready_of_pending empty ready
    have unpaid : delay = 0 ∨ (∀ t ∈ s.timers, s.now < t.due) ∧ ¬released = true := by
      refine orderly.elim .inl fun ahead => ?_
      by_cases paid : released = true
      · exact .inl ((apart paid).resolve_right busy)
      · exact .inr ⟨ahead, paid⟩
    refine ⟨released, attended', owes.take attended ready unpaid, ?_, ?_, fun paid => ?_⟩
    · rw [monitor_schedule]
      exact find
    · obtain ⟨run, generations, consumer, -⟩ := attended.consumer
      rw [schedule_of_delay (s := { s with monitor := { s.monitor with channel } }) consumer]
      exact time
    · exact .inl ((apart paid).resolve_right busy)
  | @fire t waiting come =>
    have quiet : delay = 0 ∨
        (Session.fire t { s with timers := s.timers.erase t }).monitor.channel.pending = 0 := by
      rw [channel_fire]
      exact orderly
    by_cases newest : t.key = k ∧ s.generation? k = some t.generation
    · obtain ⟨owes, paid⟩ := owes.fire_newest waiting come newest.1 newest.2
      refine ⟨true, attended', by simpa using owes, ?_, (now_fire _ _).trans time, fun _ => quiet⟩
      rw [paid, find]
      cases released <;> cases p <;> rfl
    · obtain ⟨owes, same⟩ := owes.fire_other fun of_key current => newest ⟨of_key, current⟩
      exact ⟨released, attended', owes, same.trans find, (now_fire _ _).trans time, fun _ => quiet⟩
  | operate op => cases work
  | advance milliseconds => cases work
  | stop => cases work

/-- The session's own work pays off what has come due, and no more. -/
theorem Path.pays_off {own : List Moment} (path : Path s own s') (nothing : given own = [])
    (orderly : ∀ m ∈ own, m.Orderly delay) (settled : s'.Settled) (attended : Attended delay s)
    (owes : Owes k delay due False s) :
    s'.now = s.now ∧ Owes k delay (due.filter (s.now < ·)) False s' ∧
      s'.monitor.registry.find? k =
        if due.any (· ≤ s.now) then (s.monitor.registry.find? k).map Agenda.released
        else s.monitor.registry.find? k := by
  have start : PayingOff k delay due (s.monitor.registry.find? k) s.now false s :=
    ⟨attended, by simpa using owes, rfl, rfl, Bool.noConfusion⟩
  obtain ⟨released, attended', owes', find, now, -⟩ :=
    path.invariant (P := fun _ s' =>
      ∃ released, PayingOff k delay due (s.monitor.registry.find? k) s.now released s')
      (fun _ _ _ _ inside does ⟨_, paying⟩ =>
        paying.does does (isWork_of_given nothing _ inside) (orderly _ inside))
      ⟨false, start⟩
  obtain ⟨owes', paid⟩ := owes'.settled attended' settled
  rw [now] at owes' paid
  exact ⟨now, owes', find.trans (if_congr paid rfl rfl)⟩

end Work

end ScaleWatch.Session
