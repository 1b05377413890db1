import ScaleWatch.Proofs.Session.Chronicle
import ScaleWatch.Proofs.Session.RearmRefinement

/-!
# Sessions with a consumer and a delay

`Attended` is what every deed keeps in a session whose consumer has a delay: the timers and the
newest generation of each key stand for one deadline, no timer is due later than one delay from now,
and a consumer that has stopped leaves a stream that is closed and empty.

It hangs on the deeds being in order.  With a delay, signals are taken only while no timer is due,
and timers fire only when no signal is queued; and time passes, and the consumer stops, only when no
signal is queued.  Every chronicle is in order (`Chronicle.orderly`), because all ready work is done
between two steps, and time does not pass in a step that does anything else.
-/

namespace ScaleWatch.Session

/-- The newest generation of a key, if it has a release waiting. -/
def generation? (k : Key) (s : Session) : Option Nat :=
  s.consumer.bind (·.generations k)

structure Attended (delay : Nat) (s : Session) : Prop where
  consumer : ∃ running generations, s.consumer = some ⟨some delay, running, generations⟩ ∧
    ∀ k, ∃ deadline, Tracks s.now s.timers k deadline False (generations k)
  closed : s.isConsuming = false →
    s.monitor.channel.streamOpen = false ∧ s.monitor.channel.pending = 0
  bounded : ∀ t ∈ s.timers, t.due ≤ s.now + delay

/-- The deed comes at a time when it may come. -/
def Moment.Orderly (delay : Nat) (m : Moment) : Prop :=
  match m.deed with
  | .operate _ => True
  | .take _ => delay = 0 ∨ ∀ t ∈ m.session.timers, m.time < t.due
  | .fire _ => delay = 0 ∨ m.session.monitor.channel.pending = 0
  | .advance _ | .stop => m.session.monitor.channel.pending = 0

section Attended

variable {delay : Nat} {s s' : Session}

theorem attended_new (m : Monitor) (delay : Nat) :
    Attended (min delay Consumer.maxDelay) (.new m true (some delay)) := by
  refine ⟨⟨true, fun _ => none, rfl, fun k => ⟨none, ?_⟩⟩, ?_, ?_⟩
  · exact ⟨by simp [Session.new], .inl ⟨rfl, id⟩⟩
  · intro stopped
    cases stopped
  · simp [Session.new]

theorem isConsuming_eq {running : Bool} {generations : Key → Option Nat}
    (h : s.consumer = some ⟨some delay, running, generations⟩) : s.isConsuming = running := by
  rw [isConsuming, h]
  rfl

theorem Attended.consumed (h : Attended delay s) : ∃ c, s.consumer = some c := by
  obtain ⟨running, generations, consumer, -⟩ := h.consumer
  exact ⟨_, consumer⟩

/-- A key without a newest generation has no timer that waits. -/
theorem Tracks.forget {now : Nat} {timers : List Timer} {k : Key} {deadline : Option Nat}
    {cleared : Prop} (h : Tracks now timers k deadline cleared none) :
    Tracks now timers k none False none :=
  ⟨h.1, .inl ⟨rfl, id⟩⟩

theorem Attended.operate (h : Attended delay s) (op : Monitor.Op) :
    Attended delay (s.operate op).2 := by
  by_cases stream : op.isOnStream = true
  · obtain ⟨c, consumed⟩ := h.consumed
    rw [operate_of_onStream stream consumed]
    exact h
  · have direct : op.isOnStream = false := by simpa using stream
    rw [operate_of_direct direct]
    refine ⟨h.consumer, fun stopped => ?_, h.bounded⟩
    obtain ⟨closed, empty⟩ := h.closed stopped
    have same := Monitor.channel_of_closed direct closed
    simp only [same]
    exact ⟨closed, empty⟩

theorem Attended.take (h : Attended delay s) {signal : Signal} {channel : Channel}
    (running : s.isConsuming = true)
    (waiting : delay = 0 ∨ ∀ t ∈ s.timers, s.now < t.due) :
    Attended delay ({ s with monitor := { s.monitor with channel } }.schedule signal.key) := by
  obtain ⟨run, generations, consumer, tracks⟩ := h.consumer
  rw [schedule_of_delay (s := { s with monitor := { s.monitor with channel } }) consumer]
  refine ⟨⟨run, _, rfl, fun k => ?_⟩, fun stopped => ?_, fun t ht => ?_⟩
  · obtain ⟨deadline, tracked⟩ := tracks k
    by_cases here : k = signal.key
    · subst here
      refine ⟨some (s.now + delay), ?_⟩
      rw [if_pos rfl]
      exact tracked.renew h.bounded (waiting.imp_right fun ahead => ⟨ahead, id⟩)
    · refine ⟨deadline, ?_⟩
      rw [if_neg here]
      exact tracked.append_other (Ne.symm here)
  · have still : run = true := (isConsuming_eq consumer).symm.trans running
    have ended : run = false := stopped
    rw [still] at ended
    cases ended
  · rcases List.mem_append.1 ht with old | new
    · exact h.bounded t old
    · obtain rfl := List.mem_singleton.1 new
      exact Nat.le_refl _

theorem Attended.fire (h : Attended delay s) {t : Timer} (waiting : t ∈ s.timers)
    (due : t.due ≤ s.now) : Attended delay (fire t { s with timers := s.timers.erase t }) := by
  obtain ⟨running, generations, consumer, tracks⟩ := h.consumer
  have closed : (Session.fire t { s with timers := s.timers.erase t }).isConsuming = false →
      (Session.fire t { s with timers := s.timers.erase t }).monitor.channel.streamOpen = false ∧
        (Session.fire t { s with timers := s.timers.erase t }).monitor.channel.pending = 0 := by
    rw [isConsuming_fire, channel_fire]
    exact h.closed
  have bounded : ∀ t' ∈ s.timers.erase t, t'.due ≤ s.now + delay := fun t' ht' =>
    h.bounded t' (List.mem_of_mem_erase ht')
  by_cases newest : generations t.key = some t.generation
  · rw [fire_of_newest (s := { s with timers := s.timers.erase t }) consumer newest] at closed ⊢
    refine ⟨⟨running, _, rfl, fun k => ?_⟩, closed, bounded⟩
    obtain ⟨deadline, tracked⟩ := tracks k
    by_cases here : k = t.key
    · subst here
      rw [newest] at tracked
      refine ⟨none, ?_⟩
      rw [if_pos rfl]
      exact (tracked.fire_newest waiting rfl due).forget
    · refine ⟨deadline, ?_⟩
      rw [if_neg here]
      exact tracked.fire_stale fun same => absurd same.symm here
  · rw [fire_of_stale (s := { s with timers := s.timers.erase t }) consumer newest] at closed ⊢
    refine ⟨⟨running, generations, consumer, fun k => ?_⟩, closed, bounded⟩
    obtain ⟨deadline, tracked⟩ := tracks k
    refine ⟨deadline, tracked.fire_stale ?_⟩
    rintro rfl
    exact newest

theorem Attended.advance (h : Attended delay s) (milliseconds : Nat) :
    Attended delay { s with now := s.now + milliseconds } := by
  obtain ⟨running, generations, consumer, tracks⟩ := h.consumer
  refine ⟨⟨running, generations, consumer, fun k => ?_⟩, h.closed, fun t ht => ?_⟩
  · obtain ⟨deadline, tracked⟩ := tracks k
    exact ⟨deadline, tracked.later (Nat.le_add_right _ _)⟩
  · have bound := h.bounded t ht
    simp only
    omega

theorem Attended.stop (h : Attended delay s) : Attended delay s.stop := by
  obtain ⟨running, generations, consumer, tracks⟩ := h.consumer
  rw [Session.stop, consumer]
  exact ⟨⟨false, generations, rfl, tracks⟩, fun _ => ⟨rfl, Channel.pending_dropStream _⟩, h.bounded⟩

theorem Attended.does (h : Attended delay s) {deed : Deed} (does : Does s deed s')
    (orderly : Moment.Orderly delay ⟨s, deed⟩) : Attended delay s' := by
  cases does with
  | operate op => exact h.operate op
  | take running ready => exact h.take running orderly
  | fire waiting due => exact h.fire waiting due
  | advance milliseconds => exact h.advance milliseconds
  | stop => exact h.stop

theorem Attended.along {h : List Moment} (attended : Attended delay s) (path : Path s h s')
    (orderly : ∀ m ∈ h, m.Orderly delay) : Attended delay s' :=
  path.invariant (P := fun _ s => Attended delay s)
    (fun _ s deed _ inside does attended => attended.does does (orderly ⟨s, deed⟩ inside)) attended

/-- When no work is ready, no signal is queued, whether the consumer runs or has stopped. -/
theorem Attended.pending_of_settled (h : Attended delay s) (settled : s.Settled) :
    s.monitor.channel.pending = 0 := by
  by_cases running : s.isConsuming = true
  · exact s.monitor.channel.pending_eq_zero_iff.2 (settled.tryRecv running)
  · exact (h.closed (by simpa using running)).2

end Attended

/-! ### Newest generations -/

section Generations

variable {s : Session}

theorem generation?_operate (op : Monitor.Op) (s : Session) (k : Key) :
    (s.operate op).2.generation? k = s.generation? k := by
  obtain ⟨monitor, same⟩ := operate_eq op s
  rw [same]
  rfl

/-- A timer takes no release from a key but that which it makes. -/
theorem generation?_fire {t : Timer} {k : Key}
    (stale : t.key = k → ∀ c, s.consumer = some c → c.generations k ≠ some t.generation) :
    (fire t s).generation? k = s.generation? k := by
  rcases fire_cases t s with idle | ⟨c, consumed, newest⟩
  · rw [idle]
  · have other : ¬k = t.key := by
      rintro rfl
      exact stale rfl c consumed newest
    rw [fire_of_newest consumed newest, generation?, generation?, consumed]
    simp [other]

end Generations

/-! ### Every chronicle is in order -/

section Orderly

variable {delay : Nat} {s s' : Session} {h : List Moment}

/-- A timer that is made is not due, if there is a delay. -/
theorem Attended.waiting_schedule (attended : Attended delay s)
    (waiting : delay = 0 ∨ ∀ t ∈ s.timers, s.now < t.due) (channel : Channel) (k : Key) :
    delay = 0 ∨ ∀ t ∈ ({ s with monitor := { s.monitor with channel } }.schedule k).timers,
      ({ s with monitor := { s.monitor with channel } }.schedule k).now < t.due := by
  obtain ⟨running, generations, consumer, -⟩ := attended.consumer
  rw [schedule_of_delay (s := { s with monitor := { s.monitor with channel } }) consumer]
  by_cases zero : delay = 0
  · exact .inl zero
  · right
    intro t inside
    rcases List.mem_append.1 inside with old | new
    · exact waiting.resolve_left zero t old
    · rw [List.mem_singleton.1 new]
      exact Nat.lt_add_of_pos_right (Nat.pos_of_ne_zero zero)

/-- While only operations are asked for, no timer comes due. -/
theorem Does.waiting_of_operation {deed : Deed} (does : Does s deed s')
    (attended : Attended delay s) (waiting : delay = 0 ∨ ∀ t ∈ s.timers, s.now < t.due)
    (operation : deed.isWork = false → ∃ op, deed = .operate op) :
    Moment.Orderly delay ⟨s, deed⟩ ∧ (delay = 0 ∨ ∀ t ∈ s'.timers, s'.now < t.due) := by
  cases does with
  | operate op =>
    obtain ⟨monitor, same⟩ := operate_eq op s
    rw [same]
    exact ⟨trivial, waiting⟩
  | take running ready => exact ⟨waiting, attended.waiting_schedule waiting _ _⟩
  | fire inside due =>
    have zero := waiting.resolve_right fun ahead => Nat.not_le.2 (ahead _ inside) due
    exact ⟨.inl zero, .inl zero⟩
  | advance milliseconds =>
    obtain ⟨op, same⟩ := operation rfl
    cases same
  | stop =>
    obtain ⟨op, same⟩ := operation rfl
    cases same

theorem Path.orderly_of_operations (path : Path s h s') (attended : Attended delay s)
    (waiting : delay = 0 ∨ ∀ t ∈ s.timers, s.now < t.due)
    (operations : ∀ deed ∈ given h, ∃ op, deed = .operate op) :
    (∀ m ∈ h, m.Orderly delay) ∧ (delay = 0 ∨ ∀ t ∈ s'.timers, s'.now < t.due) := by
  induction path with
  | done => exact ⟨by simp, waiting⟩
  | @next s after _ deed rest does path ih =>
    obtain ⟨orderly, waiting⟩ := does.waiting_of_operation attended waiting fun asked =>
      operations deed (mem_given (m := ⟨s, deed⟩) List.mem_cons_self asked)
    obtain ⟨later, ahead⟩ := ih (attended.does does orderly) waiting fun deed inside =>
      operations deed (given_cons _ _ inside)
    exact ⟨List.forall_mem_cons.2 ⟨orderly, later⟩, ahead⟩

/-- While nothing is asked for and no signal is queued, timers fire and nothing else happens. -/
theorem Path.orderly_of_nothing (path : Path s h s') (empty : s.monitor.channel.pending = 0)
    (nothing : given h = []) : ∀ m ∈ h, m.Orderly delay := by
  induction path with
  | done => simp
  | @next s after _ deed rest does path ih =>
    cases does with
    | fire inside due =>
      refine List.forall_mem_cons.2 ⟨.inr empty, ih ?_ nothing⟩
      rw [channel_fire]
      exact empty
    | take running ready => exact absurd ready (not_ready_of_pending empty)
    | operate op => cases nothing
    | advance milliseconds => cases nothing
    | stop => cases nothing

theorem Step.deeds_cases (st : Step) :
    (∃ milliseconds, st.deeds = [.advance milliseconds]) ∨ st.deeds = [.stop] ∨
      ∀ deed ∈ st.deeds, ∃ op, deed = .operate op := by
  cases st with
  | advance milliseconds => exact .inl ⟨milliseconds, rfl⟩
  | shutdown => exact .inr (.inl rfl)
  | monitor ops => exact .inr (.inr (by simp [Step.deeds]))
  | lines input => exact .inr (.inr (by simp [Step.deeds]))
  | http request => exact .inr (.inr (by simp [Step.deeds]))

/-- What a step does from rest is in order. -/
theorem Path.orderly {st : Step} (path : Path s h s') (attended : Attended delay s)
    (settled : s.Settled) (asked : given h = st.deeds) : ∀ m ∈ h, m.Orderly delay := by
  have empty := attended.pending_of_settled settled
  rcases st.deeds_cases with ⟨milliseconds, same⟩ | same | operations
  · obtain ⟨after, rest, rfl, does, path, nothing⟩ := path.of_settled settled (asked.trans same)
    cases does
    exact List.forall_mem_cons.2 ⟨empty, path.orderly_of_nothing empty nothing⟩
  · obtain ⟨after, rest, rfl, does, path, nothing⟩ := path.of_settled settled (asked.trans same)
    cases does
    have empty' : s.stop.monitor.channel.pending = 0 := by
      obtain ⟨running, generations, consumer, -⟩ := attended.consumer
      rw [stop, consumer]
      exact Channel.pending_dropStream _
    exact List.forall_mem_cons.2 ⟨empty, path.orderly_of_nothing empty' nothing⟩
  · rw [← asked] at operations
    exact (path.orderly_of_operations attended (.inr fun t ht => settled.ahead ht) operations).1

theorem Chronicle.orderly {steps : List Step} (c : Chronicle s steps h s')
    (attended : Attended delay s) (settled : s.Settled) : ∀ m ∈ h, m.Orderly delay := by
  induction c with
  | done => simp
  | step path asked settled' _ ih =>
    have first := path.orderly attended settled asked
    have rest := ih (attended.along path first) settled'
    exact List.forall_mem_append.2 ⟨first, rest⟩

theorem Chronicle.settled {steps : List Step} (c : Chronicle s steps h s') (settled : s.Settled) :
    s'.Settled := by
  induction c with
  | done => exact settled
  | step _ _ settled' _ ih => exact ih settled'

end Orderly

end ScaleWatch.Session
