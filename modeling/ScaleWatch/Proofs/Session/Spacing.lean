import ScaleWatch.Proofs.Session.Attended

/-!
# Signals of a key are a delay apart

Under the latching policy, when the consumer takes a signal of a key, the key does not fire again
before one delay has passed, unless its gate is released by hand or the key is unregistered
(`signals_spaced`).  Timers of older signals of the same key may come due meanwhile, and timers of
other keys; none of them opens the gate.

Only what happens from the firing on counts as release by hand: a gate that is released between the
firing and the taking of its signal, which takes a step that does both, is open at once
(`SpacedFromFiring`).  If every release by hand is a step of its own, the taking is soon enough
(`Spaced`).  Delays beyond the longest one count as the longest.

What carries the proof is `Guarded`: the gate is held, and no timer of the newest generation comes
due too early.
-/

namespace ScaleWatch.Session

/-- From when the consumer takes a signal of the key, the key does not fire for a while, unless it
is freed meanwhile. -/
def Spaced (k : Key) (delay : Nat) (h : List Moment) : Prop :=
  ∀ before taken since later after, h = before ++ taken :: (since ++ later :: after) →
    taken.Takes k → later.Fires k → (∀ m ∈ since, ¬m.Frees k) → taken.time + delay ≤ later.time

/-- The same, unless the key is freed after it fired and before it fires again. -/
def SpacedFromFiring (k : Key) (delay : Nat) (h : List Moment) : Prop :=
  ∀ before fired between taken since later after,
    h = before ++ fired :: (between ++ taken :: (since ++ later :: after)) →
      fired.Fires k → taken.Takes k → later.Fires k → (∀ m ∈ between ++ since, ¬m.Frees k) →
        taken.time + delay ≤ later.time

/-- If the step frees the key, it asks for nothing else. -/
def Step.Apart (k : Key) (st : Step) : Prop :=
  ∀ deed ∈ st.deeds, deed.frees k = true → st.deeds = [deed]

/-- The key has fired and has not been freed since. -/
def Standing (k : Key) (h : List Moment) : Prop :=
  ∃ before fired after, h = before ++ fired :: after ∧ fired.Fires k ∧ ∀ m ∈ after, ¬m.Frees k

section Standing

variable {k : Key} {h : List Moment} {m : Moment}

theorem not_standing_nil (k : Key) : ¬Standing k [] := by
  rintro ⟨before, fired, after, impossible, -⟩
  simp at impossible

theorem Standing.append_left (standing : Standing k h) (earlier : List Moment) :
    Standing k (earlier ++ h) := by
  obtain ⟨before, fired, after, rfl, fires, since⟩ := standing
  exact ⟨earlier ++ before, fired, after, by simp, fires, since⟩

theorem Standing.of_concat (standing : Standing k (h ++ [m])) :
    m.Fires k ∨ Standing k h ∧ ¬m.Frees k := by
  obtain ⟨before, fired, after, split, fires, since⟩ := standing
  rcases List.eq_nil_or_concat after with rfl | ⟨after, last, rfl⟩
  · obtain ⟨-, same⟩ := List.append_inj' split rfl
    cases same
    exact .inl fires
  · rw [List.concat_eq_append, ← List.cons_append, ← List.append_assoc] at split
    obtain ⟨same, ends⟩ := List.append_inj' split rfl
    cases ends
    rw [List.concat_eq_append] at since
    exact .inr ⟨⟨before, fired, after, same, fires, fun m' inside =>
      since m' (List.mem_append_left _ inside)⟩, since m (by simp)⟩

end Standing

/-! ### Where signals come from -/

section Origin

variable {delay : Nat} {s s' : Session} {h : List Moment} {k : Key}

/-- A signal that is queued after a deed was queued before, or its key has just fired. -/
theorem mem_queued_does {deed : Deed} (attended : Attended delay s) (does : Does s deed s')
    {x : Signal} (inside : x ∈ s'.monitor.channel.queued) :
    x ∈ s.monitor.channel.queued ∨ Moment.firing? ⟨s, deed⟩ = some (x.key, x.direction) := by
  obtain ⟨c, consumed⟩ := attended.consumed
  cases does with
  | operate op => exact mem_queued_operate consumed inside
  | take running ready =>
    rw [monitor_schedule] at inside
    have taken := Channel.perm_of_tryRecv (Channel.tryRecv_of_poll ready)
    exact .inl (taken.mem_iff.1 (List.mem_cons_of_mem _ inside))
  | fire waiting due =>
    rw [channel_fire] at inside
    exact .inl inside
  | advance milliseconds => exact .inl inside
  | stop =>
    rw [stop, consumed] at inside
    have none_left := List.eq_nil_of_length_eq_zero (Channel.pending_dropStream s.monitor.channel)
    rw [show Channel.queued _ = [] from none_left] at inside
    cases inside

/-- Every signal that is queued was fired on the way, if the queue was empty. -/
theorem Path.fired_of_queued (path : Path s h s') (attended : Attended delay s)
    (orderly : ∀ m ∈ h, m.Orderly delay) (empty : s.monitor.channel.pending = 0) {x : Signal}
    (inside : x ∈ s'.monitor.channel.queued) :
    ∃ fired ∈ h, fired.firing? = some (x.key, x.direction) := by
  have kept : Attended delay s' ∧ ∀ x ∈ s'.monitor.channel.queued,
      ∃ fired ∈ h, fired.firing? = some (x.key, x.direction) := by
    refine path.invariant (P := fun h s => Attended delay s ∧
      ∀ x ∈ s.monitor.channel.queued, ∃ fired ∈ h, fired.firing? = some (x.key, x.direction)) ?_ ?_
    · intro past s deed s' here does both
      refine ⟨both.1.does does (orderly _ here), fun x inside => ?_⟩
      rcases mem_queued_does both.1 does inside with old | fires
      · obtain ⟨fired, earlier, fires⟩ := both.2 x old
        exact ⟨fired, List.mem_append_left _ earlier, fires⟩
      · exact ⟨⟨s, deed⟩, by simp, fires⟩
    · refine ⟨attended, fun x inside => ?_⟩
      rw [show s.monitor.channel.queued = [] from List.eq_nil_of_length_eq_zero empty] at inside
      cases inside
  exact kept.2 x inside

theorem Does.queued_of_take {signal : Signal} (does : Does s (.take signal) s') :
    signal ∈ s.monitor.channel.queued := by
  cases does with
  | take running ready =>
    have taken := Channel.perm_of_tryRecv (Channel.tryRecv_of_poll ready)
    exact taken.mem_iff.1 List.mem_cons_self

/-- Before the consumer takes a signal, its key has fired. -/
theorem Path.fired_of_takes {before after : List Moment} {taken : Moment}
    (path : Path s (before ++ taken :: after) s') (attended : Attended delay s)
    (orderly : ∀ m ∈ before, m.Orderly delay) (empty : s.monitor.channel.pending = 0)
    (takes : taken.Takes k) : ∃ fired ∈ before, fired.Fires k := by
  obtain ⟨signal, here, rfl⟩ := takes
  obtain ⟨_, path, does, -⟩ := path.at
  rw [here] at does
  obtain ⟨fired, inside, fires⟩ := path.fired_of_queued attended orderly empty does.queued_of_take
  exact ⟨fired, inside, _, fires⟩

/-- In a step that frees the key by itself or not at all, the key stands when its signal is
taken. -/
theorem Path.standing_of_apart {st : Step} {before after : List Moment} {taken : Moment}
    (path : Path s (before ++ taken :: after) s') (attended : Attended delay s)
    (orderly : ∀ m ∈ before, m.Orderly delay) (empty : s.monitor.channel.pending = 0)
    (asked : given (before ++ taken :: after) = st.deeds) (apart : st.Apart k)
    (takes : taken.Takes k) : Standing k before := by
  obtain ⟨fired, inside, fires⟩ := path.fired_of_takes attended orderly empty takes
  obtain ⟨b, a, rfl⟩ := List.append_of_mem inside
  refine ⟨b, fired, a, rfl, fires, fun m later frees => ?_⟩
  obtain ⟨op, operates⟩ := fires.operates
  have asked_for : ∀ m ∈ b ++ fired :: a, m.deed.isWork = false → m.deed ∈ st.deeds := by
    intro m inside outside
    rw [← asked]
    exact mem_given (List.mem_append_left _ inside) outside
  have outside : m.deed.isWork = false := by
    unfold Moment.Frees at frees
    cases here : m.deed with
    | operate op => rfl
    | _ => rw [here] at frees; cases frees
  have alone := apart m.deed (asked_for m (by simp [later]) outside) frees
  have same := asked_for fired (by simp) (by rw [operates]; rfl)
  rw [alone, List.mem_singleton] at same
  have both : fired.Frees k := by
    rw [Moment.Frees, same]
    exact frees
  exact fires.not_frees both

theorem Chronicle.standing_of_apart {steps : List Step} (c : Chronicle s steps h s')
    (attended : Attended delay s) (settled : s.Settled) (apart : ∀ st ∈ steps, st.Apart k)
    {before after : List Moment} {taken : Moment} (split : h = before ++ taken :: after)
    (takes : taken.Takes k) : Standing k before := by
  induction c generalizing before with
  | done => simp at split
  | @step s s₁ s' st steps h h' path asked settled' rest ih =>
    have orderly := path.orderly attended settled asked
    have attended' := attended.along path orderly
    have apart' : ∀ st ∈ steps, st.Apart k := fun st inside =>
      apart st (List.mem_cons_of_mem _ inside)
    rcases List.append_eq_append_iff.1 split with ⟨a, rfl, later⟩ | ⟨c, rfl, later⟩
    · exact (ih attended' settled' apart' later).append_left h
    · rcases c with _ | ⟨first, c⟩
      · have first : h' = [] ++ taken :: after := later.symm
        exact absurd (ih attended' settled' apart' first) (not_standing_nil k)
      · cases later
        exact path.standing_of_apart attended (fun m inside => orderly m (by simp [inside]))
          (attended.pending_of_settled settled) asked (apart st List.mem_cons_self) takes

end Origin

/-! ### While the gate is guarded -/

/-- The gate is held, and the timers of the newest generation leave it alone until `due`. -/
structure Guarded (k : Key) (due delay : Nat) (s : Session) : Prop where
  held : s.monitor.Holds k
  newest : ∃ generation, s.generation? k = some generation ∧ ∀ t ∈ s.timers, t.key = k →
    t.generation ≤ generation ∧ (t.generation = generation → due ≤ t.due)
  near : due ≤ s.now + delay

section Guarded

variable {delay due : Nat} {s s' : Session} {h : List Moment} {k : Key}

/-- A signal that is taken while its gate is held and no timer is due starts a guard of one
delay. -/
theorem guarded_of_take (attended : Attended delay s) {signal : Signal} {channel : Channel}
    (waiting : ∀ t ∈ s.timers, s.now < t.due) (held : s.monitor.Holds signal.key) :
    Guarded signal.key (s.now + delay) delay
      ({ s with monitor := { s.monitor with channel } }.schedule signal.key) := by
  obtain ⟨running, generations, consumer, tracks⟩ := attended.consumer
  obtain ⟨deadline, tracked⟩ := tracks signal.key
  rw [schedule_of_delay (s := { s with monitor := { s.monitor with channel } }) consumer]
  refine ⟨held, ⟨(generations signal.key).getD 0 + 1, by simp [generation?],
    fun t inside of_key => ?_⟩, Nat.le_refl _⟩
  rcases List.mem_append.1 inside with old | new
  · have ahead := waiting t old
    cases current : generations signal.key with
    | none =>
      rw [current] at tracked
      exact absurd (tracked.1 t old of_key) (Nat.not_le.2 ahead)
    | some generation =>
      rw [current] at tracked
      obtain ⟨_, -, -, -, all⟩ := tracked
      obtain ⟨-, below, -⟩ := all t old of_key
      simp only [Option.getD_some]
      exact ⟨by omega, fun same => by omega⟩
  · obtain rfl := List.mem_singleton.1 new
    exact ⟨Nat.le_refl _, fun _ => Nat.le_refl _⟩

theorem Guarded.take (guarded : Guarded k due delay s) (attended : Attended delay s)
    (signal : Signal) (channel : Channel) :
    Guarded k due delay
      ({ s with monitor := { s.monitor with channel } }.schedule signal.key) := by
  obtain ⟨running, generations, consumer, -⟩ := attended.consumer
  obtain ⟨held, ⟨generation, current, timers⟩, near⟩ := guarded
  rw [generation?, consumer, Option.bind_some] at current
  rw [schedule_of_delay (s := { s with monitor := { s.monitor with channel } }) consumer]
  by_cases here : k = signal.key
  · subst here
    refine ⟨held, ⟨generation + 1, ?_, fun t inside of_key => ?_⟩, near⟩
    · simp [generation?, show generations signal.key = some generation from current]
    · rcases List.mem_append.1 inside with old | new
      · obtain ⟨below, -⟩ := timers t old of_key
        exact ⟨by omega, fun same => by omega⟩
      · obtain rfl := List.mem_singleton.1 new
        simp only [show generations signal.key = some generation from current, Option.getD_some]
        exact ⟨Nat.le_refl _, fun _ => near⟩
  · refine ⟨held, ⟨generation, ?_, fun t inside of_key => ?_⟩, near⟩
    · simpa [generation?, here] using current
    · rcases List.mem_append.1 inside with old | new
      · exact timers t old of_key
      · obtain rfl := List.mem_singleton.1 new
        exact absurd of_key.symm here

theorem Guarded.fire (guarded : Guarded k due delay s) {t : Timer} (inside : t ∈ s.timers)
    (come : t.due ≤ s.now) (before : s.now < due) :
    Guarded k due delay (fire t { s with timers := s.timers.erase t }) := by
  obtain ⟨held, ⟨generation, current, timers⟩, near⟩ := guarded
  have stale : t.key = k → ∀ c,
      ({ s with timers := s.timers.erase t } : Session).consumer = some c →
        c.generations k ≠ some t.generation := by
    intro of_key c consumed newest
    have same : s.generation? k = some t.generation := by
      rw [generation?, show s.consumer = some c from consumed]
      exact newest
    rw [current] at same
    cases same
    have late := (timers t inside of_key).2 rfl
    omega
  refine ⟨holds_fire (s := { s with timers := s.timers.erase t }) held stale,
    ⟨generation, ?_, fun t' inside' of_key => ?_⟩, ?_⟩
  · rw [generation?_fire stale]
    exact current
  · rw [timers_fire] at inside'
    exact timers t' (List.mem_of_mem_erase inside') of_key
  · rw [now_fire]
    exact near

/-- Until it is due, a guard is lifted only by freeing the key. -/
theorem Guarded.does {deed : Deed} (guarded : Guarded k due delay s) (attended : Attended delay s)
    (does : Does s deed s') (kept : deed.frees k = false) (before : s'.now < due) :
    Guarded k due delay s' := by
  obtain ⟨c, consumed⟩ := attended.consumed
  cases does with
  | operate op =>
    obtain ⟨held, newest, near⟩ := guarded
    have held' := holds_operate consumed held kept
    obtain ⟨monitor, same⟩ := operate_eq op s
    rw [same] at held' ⊢
    exact ⟨held', newest, near⟩
  | take running ready => exact guarded.take attended _ _
  | fire inside come =>
    rw [now_fire] at before
    exact guarded.fire inside come before
  | advance milliseconds =>
    obtain ⟨held, newest, near⟩ := guarded
    refine ⟨held, newest, ?_⟩
    simp only
    omega
  | stop =>
    obtain ⟨held, newest, near⟩ := guarded
    rw [generation?, consumed] at newest
    rw [stop, consumed]
    exact ⟨held, newest, near⟩

end Guarded

/-! ### What was taken is guarded -/

/-- A key that stands while a signal of it is queued holds its gate, and every signal of it that was
taken while it stood, and not freed since, guards the gate for one delay. -/
structure Protected (k : Key) (delay : Nat) (h : List Moment) (s : Session) : Prop where
  latched : s.monitor.policy = .latched
  secured : Standing k h → (∃ x ∈ s.monitor.channel.queued, x.key = k) → s.monitor.Holds k
  guarded : ∀ before taken since, h = before ++ taken :: since → taken.Takes k →
    Standing k before → (∀ m ∈ since, ¬m.Frees k) → s.now < taken.time + delay →
      Guarded k (taken.time + delay) delay s

section Protected

variable {delay : Nat} {s s' : Session} {h : List Moment} {k : Key}

theorem protected_new (k : Key) (delay : Nat) (s : Session)
    (latched : s.monitor.policy = .latched) : Protected k delay [] s :=
  ⟨latched, fun standing => absurd standing (not_standing_nil k), by simp⟩

theorem Protected.secured_does {deed : Deed} (p : Protected k delay h s)
    (attended : Attended delay s) (does : Does s deed s') (positive : 0 < delay)
    (orderly : Moment.Orderly delay ⟨s, deed⟩) (standing : Standing k (h ++ [⟨s, deed⟩]))
    (queued : ∃ x ∈ s'.monitor.channel.queued, x.key = k) : s'.monitor.Holds k := by
  by_cases fires : Moment.Fires k ⟨s, deed⟩
  · obtain ⟨op, operates⟩ := fires.operates
    cases operates
    cases does
    exact holds_of_fires p.latched fires
  obtain ⟨stands, kept⟩ := standing.of_concat.resolve_left fires
  obtain ⟨x, inside, of_key⟩ := queued
  have old : x ∈ s.monitor.channel.queued := by
    refine (mem_queued_does attended does inside).resolve_right fun firing => fires ?_
    rw [← of_key]
    exact ⟨_, firing⟩
  have held := p.secured stands ⟨x, old, of_key⟩
  have not_empty : s.monitor.channel.pending ≠ 0 := List.length_pos_of_mem old |>.ne'
  have unfreed : deed.frees k = false := by simpa [Moment.Frees] using kept
  obtain ⟨c, consumed⟩ := attended.consumed
  cases does with
  | operate op => exact holds_operate consumed held unfreed
  | take running ready =>
    rw [monitor_schedule]
    exact held
  | fire waiting due => exact absurd (orderly.resolve_left positive.ne') not_empty
  | advance milliseconds => exact held
  | stop => exact absurd orderly not_empty

theorem Protected.does {deed : Deed} (p : Protected k delay h s)
    (attended : Attended delay s) (does : Does s deed s') (positive : 0 < delay)
    (orderly : Moment.Orderly delay ⟨s, deed⟩) : Protected k delay (h ++ [⟨s, deed⟩]) s' := by
  refine ⟨does.policy.trans p.latched, p.secured_does attended does positive orderly, ?_⟩
  intro before taken since split takes standing kept early
  rcases List.eq_nil_or_concat since with rfl | ⟨since, last, rfl⟩
  · -- the signal has just been taken
    obtain ⟨rfl, same⟩ := List.append_inj' split rfl
    cases same
    obtain ⟨signal, here, rfl⟩ := takes
    cases here
    have held := p.secured standing ⟨signal, does.queued_of_take, rfl⟩
    cases does with
    | take running ready =>
      exact guarded_of_take attended (orderly.resolve_left positive.ne') held
  · -- the signal was taken before
    rw [List.concat_eq_append, ← List.cons_append, ← List.append_assoc] at split
    obtain ⟨same, ends⟩ := List.append_inj' split rfl
    cases ends
    rw [List.concat_eq_append] at kept
    have guarded := p.guarded before taken since same takes standing
      (fun m inside => kept m (List.mem_append_left _ inside))
      (Nat.lt_of_le_of_lt does.now_le early)
    exact guarded.does attended does (by simpa [Moment.Frees] using kept ⟨s, deed⟩ (by simp)) early

theorem Path.protects (path : Path s h s') (attended : Attended delay s)
    (latched : s.monitor.policy = .latched) (positive : 0 < delay)
    (orderly : ∀ m ∈ h, m.Orderly delay) : Protected k delay h s' := by
  refine (path.invariant (P := fun h s => Attended delay s ∧ Protected k delay h s) ?_
    ⟨attended, protected_new k delay s latched⟩).2
  intro past s deed s' inside does both
  exact ⟨both.1.does does (orderly _ inside), both.2.does both.1 does positive (orderly _ inside)⟩

end Protected

/-! ### Signals are a delay apart -/

section Spaced

variable {delay : Nat} {s s' : Session} {h : List Moment}

theorem Path.spacedFromFiring (path : Path s h s') (attended : Attended delay s)
    (latched : s.monitor.policy = .latched) (orderly : ∀ m ∈ h, m.Orderly delay) (k : Key) :
    SpacedFromFiring k delay h := by
  rintro before fired between taken since later after rfl fires takes fires' kept
  by_cases zero : delay = 0
  · have path' :
        Path s ((before ++ fired :: between) ++ taken :: (since ++ later :: after)) s' := by
      simpa using path
    obtain ⟨_, -, does, rest⟩ := path'.at
    obtain ⟨_, wait, -, -⟩ := rest.at
    have passed := Nat.le_trans does.now_le wait.now_le
    rw [zero]
    exact passed
  have split : before ++ fired :: (between ++ taken :: (since ++ later :: after)) =
      (before ++ fired :: between ++ taken :: since) ++ later :: after := by simp
  rw [split] at path orderly
  obtain ⟨_, until_later, -, -⟩ := path.at
  have safe := until_later.protects (k := k) attended latched (Nat.pos_of_ne_zero zero)
    fun m inside => orderly m (List.mem_append_left _ inside)
  by_contra early
  have guarded := safe.guarded (before ++ fired :: between) taken since rfl takes
    ⟨before, fired, between, rfl, fires, fun m inside => kept m (List.mem_append_left _ inside)⟩
    (fun m inside => kept m (List.mem_append_right _ inside)) (Nat.not_le.1 early)
  obtain ⟨op, operates⟩ := fires'.operates
  obtain ⟨d, firing⟩ := fires'
  rw [Moment.firing?, operates] at firing
  exact Monitor.not_holds_of_firing firing guarded.held

theorem Spaced.of_firing {k : Key} (spaced : SpacedFromFiring k delay h)
    (standing : ∀ before taken after, h = before ++ taken :: after → taken.Takes k →
      Standing k before) : Spaced k delay h := by
  rintro before taken since later after rfl takes fires kept
  obtain ⟨b, fired, between, rfl, fires', stands⟩ := standing _ _ _ rfl takes
  refine spaced b fired between taken since later after (by simp) fires' takes fires ?_
  exact List.forall_mem_append.2 ⟨stands, kept⟩

end Spaced

/-- Under the latching policy, whatever is asked for and in whatever order the ready work is done:
before a signal of a key is taken, the key has fired; it does not fire again within one delay,
unless it was freed since it fired; and that is since the signal was taken, if every step that
frees the key asks for nothing else.  Delays beyond the longest one count as the longest. -/
theorem signals_spaced (settings : Monitor.Settings) (delay : Nat) (steps : List Step) (s : Session)
    (latched : settings.policy = .latched)
    (runs : Runs (.new (.new settings) true (some delay)) steps s) :
    (∃ h, Chronicle (.new (.new settings) true (some delay)) steps h s) ∧
      ∀ h, Chronicle (.new (.new settings) true (some delay)) steps h s → ∀ k,
        (∀ before taken after, h = before ++ taken :: after → taken.Takes k →
          ∃ fired ∈ before, fired.Fires k) ∧
        SpacedFromFiring k (min delay Consumer.maxDelay) h ∧
        ((∀ st ∈ steps, st.Apart k) → Spaced k (min delay Consumer.maxDelay) h) := by
  refine ⟨chronicle_of_runs runs, fun h chronicle k => ?_⟩
  have attended := attended_new (.new settings) delay
  have settled := settled_new settings true (some delay)
  have orderly := chronicle.orderly attended settled
  have spaced := chronicle.path.spacedFromFiring attended latched orderly k
  refine ⟨?_, spaced, fun apart => ?_⟩
  · rintro before taken after rfl takes
    exact chronicle.path.fired_of_takes attended (fun m inside => orderly m (by simp [inside]))
      (attended.pending_of_settled settled) takes
  · exact .of_firing spaced fun before taken after split takes =>
      chronicle.standing_of_apart attended settled apart split takes

/-! ### Firing again -/

/-- A session with room for eight signals, whose consumer has a delay. -/
def delayed (delay : Nat) : Session :=
  .new (.new ⟨.latched, 16, 1, 8⟩) true (some delay)

/-- A key fires, its gate is released by its timer after a while, and it fires again. -/
def firedAgain (wait : Nat) : Plan :=
  [(.monitor [.store ⟨2, 10, 1⟩, .register (.port 1), .transition 0 (.port 1) .closed],
      [.operate (.store ⟨2, 10, 1⟩), .operate (.register (.port 1)),
        .operate (.transition 0 (.port 1) .closed), .take ⟨.port 1, .scaleDown, some 1⟩]),
    (.advance wait, [.advance wait, .fire ⟨.port 1, 1, wait⟩]),
    (.monitor [.transition 0 (.port 1) .closed],
      [.operate (.transition 0 (.port 1) .closed), .take ⟨.port 1, .scaleDown, some 1⟩])]

/-- The key fires twice, one delay apart. -/
theorem signals_spaced_firedAgain :
    ∃ s, Runs (delayed 200) ((firedAgain 200).map (·.1)) s ∧
      Chronicle (delayed 200) ((firedAgain 200).map (·.1))
        ((firedAgain 200).moments (delayed 200)) s ∧
      ((firedAgain 200).moments (delayed 200)).filterMap
        (fun m => m.firing?.map fun fired => (fired.1, m.time)) = [(.port 1, 0), (.port 1, 200)] ∧
      Spaced (.port 1) 200 ((firedAgain 200).moments (delayed 200)) := by
  have possible : (firedAgain 200).isPossible (delayed 200) = true := by decide +kernel
  have chronicle := Plan.chronicle possible
  have runs :
      Runs (delayed 200) ((firedAgain 200).map (·.1)) ((firedAgain 200).last (delayed 200)) :=
    runs_run _ _
  have spaced := (signals_spaced _ 200 _ _ rfl runs).2 _ chronicle (.port 1)
  refine ⟨_, runs, chronicle, by decide +kernel, spaced.2.2 ?_⟩
  simp [firedAgain, Step.Apart, Step.deeds, Deed.frees, Monitor.Op.frees]

/-- A key fires, its gate is released by hand before its signal is taken, and it fires again. -/
def freedBetween : Plan :=
  [(.monitor [.store ⟨2, 10, 1⟩, .register (.port 1), .transition 0 (.port 1) .closed,
      .clearGate (.port 1)],
      [.operate (.store ⟨2, 10, 1⟩), .operate (.register (.port 1)),
        .operate (.transition 0 (.port 1) .closed), .operate (.clearGate (.port 1)),
        .take ⟨.port 1, .scaleDown, some 1⟩]),
    (.monitor [.transition 0 (.port 1) .closed],
      [.operate (.transition 0 (.port 1) .closed), .take ⟨.port 1, .scaleDown, some 1⟩])]

/-- A delay beyond the longest one ends before its time, and a key that is freed between its firing
and the taking of its signal fires again at once. -/
theorem not_signals_spaced :
    (¬∀ (settings : Monitor.Settings) (delay : Nat) (steps : List Step) (h : List Moment)
      (s : Session), settings.policy = .latched → (∀ k, ∀ st ∈ steps, st.Apart k) →
        Chronicle (.new (.new settings) true (some delay)) steps h s → ∀ k, Spaced k delay h) ∧
    ¬∀ (settings : Monitor.Settings) (delay : Nat) (steps : List Step) (h : List Moment)
      (s : Session), settings.policy = .latched → delay ≤ Consumer.maxDelay →
        Chronicle (.new (.new settings) true (some delay)) steps h s → ∀ k, Spaced k delay h := by
  constructor
  · intro claim
    have possible : (firedAgain Consumer.maxDelay).isPossible (delayed (Consumer.maxDelay + 1)) =
        true := by decide +kernel
    have apart : ∀ k, ∀ st ∈ (firedAgain Consumer.maxDelay).map (·.1), st.Apart k := by
      simp [firedAgain, Step.Apart, Step.deeds, Deed.frees, Monitor.Op.frees]
    have spaced := claim _ _ _ _ _ rfl apart (Plan.chronicle possible) (.port 1)
    have early := spaced [_, _, _] _ [_, _] _ [_] rfl ⟨_, rfl, rfl⟩ ⟨.scaleDown, by decide +kernel⟩
      (by simp [Moment.Frees, Deed.frees])
    revert early
    decide +kernel
  · intro claim
    have possible : freedBetween.isPossible (delayed 200) = true := by decide +kernel
    have spaced := claim _ _ _ _ _ rfl (by decide) (Plan.chronicle possible) (.port 1)
    have early := spaced [_, _, _, _] _ [] _ [_] rfl ⟨_, rfl, rfl⟩ ⟨.scaleDown, by decide +kernel⟩
      (by simp)
    revert early
    decide +kernel

end ScaleWatch.Session
