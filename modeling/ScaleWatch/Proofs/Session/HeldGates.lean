import ScaleWatch.Proofs.Session.Attended

/-!
# No gate is stuck, except by a signal that was dropped

Under the latching policy a key that fires stays silent until its gate is released.  In a session
whose consumer has a delay the release comes by itself: between two steps every gate that is held
has a timer of its newest generation, due within one delay, that will release it.  The exception is
a key whose last signal found its slot full or the stream closed: nobody takes that signal, so
nobody schedules a release (`held_gate_released_or_dropped`).

What carries the proof is `Explained`, which also covers the time within a step: the signal of a
gate that is held was dropped, or it is still queued, or a release has been scheduled.
-/

namespace ScaleWatch.Session

/-- The key fired last at this moment, and it has not been unregistered since. -/
def LastFired (k : Key) (h : List Moment) (last : Moment) : Prop :=
  ∃ before after, h = before ++ last :: after ∧ last.Fires k ∧
    ∀ m ∈ after, ¬m.Fires k ∧ m.deed ≠ .operate (.unregister k)

/-- The signal behind every gate that is held was dropped, or is queued, or was taken and has led to
a release that waits. -/
def Explained (h : List Moment) (s : Session) : Prop :=
  ∀ k, s.monitor.Holds k → ∃ last, LastFired k h last ∧
    (last.Refuses ∨ (∃ x ∈ s.monitor.channel.queued, x.key = k) ∨ (s.generation? k).isSome)

section LastFired

variable {k : Key} {h : List Moment} {last m : Moment}

theorem lastFired_concat (fires : m.Fires k) : LastFired k (h ++ [m]) m :=
  ⟨h, [], rfl, fires, by simp⟩

theorem LastFired.concat (fired : LastFired k h last) (quiet : ¬m.Fires k)
    (registered : m.deed ≠ .operate (.unregister k)) : LastFired k (h ++ [m]) last := by
  obtain ⟨before, after, rfl, fires, since⟩ := fired
  refine ⟨before, after ++ [m], by simp, fires, fun m' inside => ?_⟩
  rcases List.mem_append.1 inside with old | new
  · exact since m' old
  · rw [List.mem_singleton.1 new]
    exact ⟨quiet, registered⟩

/-- A deed that is no operation changes nothing about who fired last. -/
theorem LastFired.concat_of_not_operate (fired : LastFired k h last)
    (other : ∀ op, m.deed ≠ .operate op) : LastFired k (h ++ [m]) last := by
  refine fired.concat (fun fires => ?_) (other _)
  obtain ⟨op, here⟩ := fires.operates
  exact other op here

end LastFired

/-! ### Within a step -/

section Explained

variable {delay : Nat} {s : Session} {h : List Moment}

theorem Explained.operate (explained : Explained h s) (attended : Attended delay s)
    (op : Monitor.Op) : Explained (h ++ [⟨s, .operate op⟩]) (s.operate op).2 := by
  intro k held
  obtain ⟨c, consumed⟩ := attended.consumed
  by_cases fires : Moment.Fires k ⟨s, .operate op⟩
  · refine ⟨⟨s, .operate op⟩, lastFired_concat fires, ?_⟩
    obtain ⟨d, firing⟩ := fires
    obtain ⟨n, queued⟩ := queued_of_fires firing
    by_cases accepts : s.monitor.channel.accepts op.worker = true
    · rw [if_pos accepts] at queued
      exact .inr (.inl ⟨_, queued.mem_iff.2 List.mem_cons_self, rfl⟩)
    · exact .inl ⟨op, rfl, by simpa using accepts⟩
  · obtain ⟨before, kept⟩ := (holds_of_operate consumed held).resolve_left fires
    obtain ⟨last, fired, cause⟩ := explained k before
    have registered : Deed.operate op ≠ .operate (.unregister k) := by
      intro same
      cases same
      simp [Monitor.Op.frees] at kept
    refine ⟨last, fired.concat fires registered, ?_⟩
    rw [generation?_operate]
    refine cause.imp_right (Or.imp_left ?_)
    rintro ⟨x, inside, here⟩
    exact ⟨x, queued_operate consumed op inside, here⟩

theorem Explained.take (explained : Explained h s) (attended : Attended delay s)
    {signal : Signal} {channel : Channel}
    (ready : s.monitor.channel.poll = (.ready signal, channel)) :
    Explained (h ++ [⟨s, .take signal⟩])
      ({ s with monitor := { s.monitor with channel } }.schedule signal.key) := by
  intro k held
  obtain ⟨running, generations, consumer, -⟩ := attended.consumer
  rw [schedule_of_delay (s := { s with monitor := { s.monitor with channel } }) consumer] at held ⊢
  obtain ⟨last, fired, cause⟩ := explained k held
  refine ⟨last, fired.concat_of_not_operate fun op => Deed.noConfusion, ?_⟩
  have taken := Channel.perm_of_tryRecv (Channel.tryRecv_of_poll ready)
  have before : s.generation? k = generations k := by rw [generation?, consumer]; rfl
  by_cases here : k = signal.key
  · exact .inr (.inr (by simp [generation?, here]))
  · refine cause.imp_right (Or.imp ?_ ?_)
    · rintro ⟨x, inside, of_key⟩
      rcases List.mem_cons.1 (taken.mem_iff.2 inside) with rfl | left
      · exact absurd of_key.symm here
      · exact ⟨x, left, of_key⟩
    · intro waits
      rw [before] at waits
      simpa [generation?, here] using waits

theorem Explained.fire (explained : Explained h s) (attended : Attended delay s) (t : Timer) :
    Explained (h ++ [⟨s, .fire t⟩]) (fire t { s with timers := s.timers.erase t }) := by
  intro k held
  obtain ⟨running, generations, consumer, -⟩ := attended.consumer
  obtain ⟨before, stale⟩ := holds_of_fire held
  obtain ⟨last, fired, cause⟩ := explained k before
  refine ⟨last, fired.concat_of_not_operate fun op => Deed.noConfusion, ?_⟩
  rw [generation?_fire stale, channel_fire]
  exact cause

theorem Explained.stop (explained : Explained h s) (attended : Attended delay s)
    (empty : s.monitor.channel.pending = 0) : Explained (h ++ [⟨s, .stop⟩]) s.stop := by
  intro k held
  obtain ⟨running, generations, consumer, -⟩ := attended.consumer
  have none_queued : s.monitor.channel.queued = [] := List.eq_nil_of_length_eq_zero empty
  rw [Session.stop, consumer] at held ⊢
  obtain ⟨last, fired, cause⟩ := explained k held
  refine ⟨last, fired.concat_of_not_operate fun op => Deed.noConfusion, ?_⟩
  refine cause.imp_right (Or.imp ?_ ?_)
  · rintro ⟨x, inside, -⟩
    rw [none_queued] at inside
    cases inside
  · intro waits
    rw [generation?, consumer] at waits
    exact waits

theorem Explained.does {s' : Session} (explained : Explained h s) (attended : Attended delay s)
    {deed : Deed} (does : Does s deed s') (orderly : Moment.Orderly delay ⟨s, deed⟩) :
    Explained (h ++ [⟨s, deed⟩]) s' := by
  cases does with
  | operate op => exact explained.operate attended op
  | take running ready => exact explained.take attended ready
  | fire waiting due => exact explained.fire attended _
  | advance milliseconds =>
    intro k held
    obtain ⟨last, fired, cause⟩ := explained k held
    exact ⟨last, fired.concat_of_not_operate fun op => Deed.noConfusion, cause⟩
  | stop => exact explained.stop attended orderly

theorem explained_new (settings : Monitor.Settings) (delay : Option Nat) :
    Explained [] (.new (.new settings) true delay) := by
  rintro k ⟨p, watched, -⟩
  cases watched

theorem Path.explains {s' : Session} (path : Path s h s') (attended : Attended delay s)
    (orderly : ∀ m ∈ h, m.Orderly delay) (explained : Explained [] s) : Explained h s' := by
  refine (path.invariant (P := fun h s => Attended delay s ∧ Explained h s) ?_
    ⟨attended, explained⟩).2
  intro past s deed s' inside does both
  exact ⟨both.1.does does (orderly _ inside), both.2.does both.1 does (orderly _ inside)⟩

end Explained

/-! ### Between two steps -/

section Settled

variable {delay : Nat} {s s' : Session} {k : Key}

/-- A release that waits at rest has a timer, due within one delay. -/
theorem Attended.newest (attended : Attended delay s) (settled : s.Settled)
    (waits : (s.generation? k).isSome) :
    ∃ t, s.newest? k = some t ∧ s.now < t.due ∧ t.due ≤ s.now + delay := by
  obtain ⟨running, generations, consumer, tracks⟩ := attended.consumer
  rw [generation?, consumer, Option.bind_some, Option.isSome_iff_exists] at waits
  obtain ⟨generation, current⟩ := waits
  obtain ⟨deadline, tracked⟩ := tracks k
  rw [show generations k = some generation from current] at tracked
  have found := tracked.find? fun t inside => settled.ahead inside
  obtain ⟨due, rfl, -⟩ := tracked
  obtain ⟨t, newest, -⟩ := Option.map_eq_some_iff.1 found
  have inside := List.mem_of_find?_eq_some newest
  refine ⟨t, ?_, settled.ahead inside, attended.bounded t inside⟩
  rw [newest?, consumer, Option.bind_some, current, Option.bind_some]
  exact newest

theorem newest?_spec {t : Timer} (h : s.newest? k = some t) :
    t ∈ s.timers ∧ t.key = k ∧ s.generation? k = some t.generation := by
  obtain ⟨c, consumer, h⟩ := Option.bind_eq_some_iff.1 h
  obtain ⟨generation, current, h⟩ := Option.bind_eq_some_iff.1 h
  have here := List.find?_some h
  simp only [decide_eq_true_eq] at here
  refine ⟨List.mem_of_find?_eq_some h, here.1, ?_⟩
  rw [generation?, consumer, Option.bind_some, current, here.2]

/-- While time alone passes, the timer of a key releases its gate, or waits to do so. -/
structure Releasing (k : Key) (t : Timer) (now : Nat) (s : Session) : Prop where
  now : s.now = now
  empty : s.monitor.channel.pending = 0
  watched : (s.monitor.registry.find? k).isSome
  waits : s.generation? k = some t.generation ∧ t ∈ s.timers ∨ ¬s.monitor.Holds k

theorem isSome_find?_fire (t : Timer) (s : Session) (k : Key) :
    ((fire t s).monitor.registry.find? k).isSome = (s.monitor.registry.find? k).isSome := by
  rcases fire_cases t s with same | ⟨c, consumed, newest⟩
  · rw [same]
  · rw [fire_of_newest consumed newest]
    simp only [(Monitor.leads_clearGate t.key s.monitor).find k]
    exact Monitor.Effect.KeepsKeys.isSome_on (e := .release t.key) trivial _ _ _

theorem Releasing.work {t : Timer} {now : Nat} (h : Releasing k t now s) (of_key : t.key = k)
    (work : Work s s') : Releasing k t now s' := by
  cases work with
  | take running ready => exact absurd ready (not_ready_of_pending h.empty)
  | @fire other inside due =>
    refine ⟨(now_fire _ _).trans h.now, ?_, ?_, ?_⟩
    · rw [channel_fire]
      exact h.empty
    · rw [isSome_find?_fire]
      exact h.watched
    · by_cases held : (fire other { s with timers := s.timers.erase other }).monitor.Holds k
      · left
        obtain ⟨before, stale⟩ := holds_of_fire held
        obtain ⟨current, waiting⟩ := h.waits.resolve_right fun free => free before
        have ne : t ≠ other := by
          rintro rfl
          obtain ⟨c, consumed, newest⟩ := Option.bind_eq_some_iff.1 current
          exact stale of_key c consumed newest
        rw [generation?_fire stale, timers_fire]
        exact ⟨current, (List.mem_erase_of_ne ne).2 waiting⟩
      · exact .inr held

/-- Time alone releases a gate whose newest timer comes due. -/
theorem released_of_advance (attended : Attended delay s) (settled : s.Settled)
    (held : s.monitor.Holds k) {t : Timer} (newest : s.newest? k = some t) {milliseconds : Nat}
    (enough : t.due ≤ s.now + milliseconds) (runs : Runs s [.advance milliseconds] s') :
    ∃ p, s'.monitor.registry.find? k = some p ∧ p.gated = false := by
  obtain ⟨waiting, of_key, current⟩ := newest?_spec newest
  have start : Releasing k t (s.now + milliseconds) { s with now := s.now + milliseconds } := by
    obtain ⟨p, watched, -⟩ := held
    exact ⟨rfl, attended.pending_of_settled settled, Option.isSome_iff_exists.2 ⟨p, watched⟩,
      .inl ⟨current, waiting⟩⟩
  cases runs with
  | step settles rest =>
    cases rest
    have last : Releasing k t (s.now + milliseconds) s' := by
      refine settles.1.head_induction_on (motive := fun s _ => Releasing k t _ s → _) id ?_ start
      intro s₁ s₂ work _ ih h
      exact ih (h.work of_key work)
    have free : ¬s'.monitor.Holds k := by
      refine last.waits.resolve_left ?_
      rintro ⟨-, inside⟩
      have ahead := settles.2.ahead inside
      rw [last.now] at ahead
      omega
    obtain ⟨p, watched⟩ := Option.isSome_iff_exists.1 last.watched
    exact ⟨p, watched, by simpa using fun gated => free ⟨p, watched, gated⟩⟩

end Settled

/-- Between two steps a gate that is held has a timer that releases it within one delay, or the
signal that took it was dropped: in every order of the ready work, whatever was asked for. -/
theorem held_gate_released_or_dropped (settings : Monitor.Settings) (delay : Nat)
    (steps : List Step) (s : Session)
    (runs : Runs (.new (.new settings) true (some delay)) steps s) :
    (∃ h, Chronicle (.new (.new settings) true (some delay)) steps h s) ∧
      ∀ h, Chronicle (.new (.new settings) true (some delay)) steps h s →
        ∀ k, s.monitor.Holds k →
          (∃ t, s.newest? k = some t ∧ s.now < t.due ∧ t.due ≤ s.now + delay ∧
            ∀ milliseconds s', t.due ≤ s.now + milliseconds →
              Runs s [.advance milliseconds] s' →
                ∃ p, s'.monitor.registry.find? k = some p ∧ p.gated = false) ∨
          ∃ last, LastFired k h last ∧ last.Refuses := by
  refine ⟨chronicle_of_runs runs, fun h chronicle k held => ?_⟩
  have attended₀ := attended_new (.new settings) delay
  have settled₀ := settled_new settings true (some delay)
  have orderly := chronicle.orderly attended₀ settled₀
  have settled := chronicle.settled settled₀
  have attended := attended₀.along chronicle.path orderly
  have explained := chronicle.path.explains attended₀ orderly
    (explained_new settings (some delay))
  obtain ⟨last, fired, dropped | ⟨x, queued, -⟩ | waits⟩ := explained k held
  · exact .inr ⟨last, fired, dropped⟩
  · have empty : s.monitor.channel.queued = [] :=
      List.eq_nil_of_length_eq_zero (attended.pending_of_settled settled)
    rw [empty] at queued
    cases queued
  · obtain ⟨t, newest, ahead, near⟩ := attended.newest settled waits
    refine .inl ⟨t, newest, ahead, by omega, fun milliseconds s' enough runs => ?_⟩
    exact released_of_advance attended settled held newest enough runs

/-- Two keys that fire in one go, with room for one signal. -/
def firedTogether : List Step :=
  [.monitor [.store ⟨2, 10, 1⟩, .register (.port 1), .register (.port 2),
    .transition 0 (.port 1) .closed, .transition 0 (.port 2) .closed]]

/-- The first key has a release, and the signal of the second was dropped. -/
theorem held_gate_released_or_dropped_firedTogether :
    ∃ s h, Runs (.new (.new ⟨.latched, 16, 1, 1⟩) true (some 200)) firedTogether s ∧
      Chronicle (.new (.new ⟨.latched, 16, 1, 1⟩) true (some 200)) firedTogether h s ∧
      s.monitor.Holds (.port 1) ∧ (s.newest? (.port 1)).map (·.due) = some 200 ∧
      s.monitor.Holds (.port 2) ∧ ∃ last, LastFired (.port 2) h last ∧ last.Refuses := by
  have runs := runs_run firedTogether (.new (.new ⟨.latched, 16, 1, 1⟩) true (some 200))
  obtain ⟨⟨h, chronicle⟩, explained⟩ := held_gate_released_or_dropped _ 200 firedTogether _ runs
  have held₁ : (run firedTogether (.new (.new ⟨.latched, 16, 1, 1⟩) true (some 200))).monitor.Holds
      (.port 1) := ⟨⟨0, 0, true⟩, by decide +kernel, rfl⟩
  have held₂ : (run firedTogether (.new (.new ⟨.latched, 16, 1, 1⟩) true (some 200))).monitor.Holds
      (.port 2) := ⟨⟨0, 0, true⟩, by decide +kernel, rfl⟩
  have unscheduled : (run firedTogether (.new (.new ⟨.latched, 16, 1, 1⟩) true (some 200))).newest?
      (.port 2) = none := by decide +kernel
  refine ⟨_, h, runs, chronicle, held₁, by decide +kernel, held₂, ?_⟩
  refine (explained h chronicle (.port 2) held₂).resolve_left ?_
  rintro ⟨t, newest, -⟩
  rw [unscheduled] at newest
  cases newest

end ScaleWatch.Session
