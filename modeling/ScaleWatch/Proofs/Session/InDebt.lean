import ScaleWatch.Proofs.Session.Alike

/-!
# Sessions that release gates

Two sessions that look the same to a key go on doing so although each releases gates by itself, if
they owe the key the same release, and its signals are accepted alike.

One of them may also owe the key a release that is left from earlier, while the gate is free.  That
will do nothing, unless it meets a gate that has been taken since by a signal which was dropped: a
signal that is accepted puts the release off in both (`InDebt`, `Account.seen_of_inDebt`).
-/

namespace ScaleWatch.Session

/-- Whether the signal is accepted, when the key fires. -/
def Moment.accepted? (k : Key) (m : Moment) : Option Bool :=
  match m.deed with
  | .operate op =>
    if (m.session.monitor.firing? op).any (·.1 = k) then
      some (m.session.monitor.channel.accepts op.worker)
    else none
  | _ => none

/-- If the key fires at both moments, its signal is accepted at both or dropped at both. -/
def AcceptedAlike (k : Key) (m m' : Moment) : Prop :=
  ∀ x ∈ m.accepted? k, ∀ x' ∈ m'.accepted? k, x' = x

/-- If the first signal of the key is dropped, no release of its gate is on its way. -/
def Unencumbered (k : Key) (h : List Moment) : Prop :=
  ∀ m ∈ h.find? fun m => (m.accepted? k).isSome,
    m.accepted? k = some false → Unscheduled k m.session

instance (k : Key) (m m' : Moment) : Decidable (AcceptedAlike k m m') :=
  inferInstanceAs (Decidable (∀ x ∈ m.accepted? k, ∀ x' ∈ m'.accepted? k, x' = x))

instance (k : Key) (s : Session) : Decidable (Unscheduled k s) :=
  inferInstanceAs (Decidable (_ ∧ _))

instance (k : Key) (h : List Moment) : Decidable (Unencumbered k h) :=
  inferInstanceAs (Decidable (∀ m ∈ h.find? fun m => (m.accepted? k).isSome,
    m.accepted? k = some false → Unscheduled k m.session))

section Firing

variable {k : Key} {s : Session} {op : Monitor.Op} {m : Moment} {h own : List Moment}

theorem accepted?_of_fires (fires : Moment.Fires k ⟨s, .operate op⟩) :
    Moment.accepted? k ⟨s, .operate op⟩ = some (s.monitor.channel.accepts op.worker) := by
  obtain ⟨d, firing⟩ := fires
  have here : (s.monitor.firing? op).any (·.1 = k) = true := by
    rw [show s.monitor.firing? op = some (k, d) from firing]
    simp
  exact if_pos here

theorem accepted?_of_not_fires (quiet : ¬m.Fires k) : m.accepted? k = none := by
  obtain ⟨s, deed⟩ := m
  unfold Moment.accepted?
  split
  · next op same =>
    refine if_neg fun fires => quiet ?_
    rw [Option.any_eq_true] at fires
    obtain ⟨⟨k', d⟩, firing, here⟩ := fires
    obtain rfl := of_decide_eq_true here
    exact ⟨d, by rw [Moment.firing?, show deed = .operate op from same]; exact firing⟩
  · rfl

theorem accepted?_of_work (work : m.deed.isWork = true) : m.accepted? k = none := by
  refine accepted?_of_not_fires fun fires => ?_
  obtain ⟨op, same⟩ := fires.operates
  rw [same] at work
  cases work

theorem Unencumbered.of_cons (free : Unencumbered k (m :: h)) (quiet : m.accepted? k = none) :
    Unencumbered k h := by
  rw [Unencumbered, List.find?_cons_of_neg (by rw [quiet]; exact Bool.false_ne_true)] at free
  exact free

theorem Unencumbered.of_own (free : Unencumbered k (own ++ h)) (nothing : given own = []) :
    Unencumbered k h := by
  have silent : own.find? (fun m => (m.accepted? k).isSome) = none := by
    refine List.find?_eq_none.2 fun m inside => ?_
    rw [accepted?_of_work (isWork_of_given nothing m inside)]
    exact Bool.false_ne_true
  rw [Unencumbered, List.find?_append, silent, Option.none_or] at free
  exact free

end Firing

/-! ### What does not name a key -/

section Unscheduled

variable {k : Key} {delay : Nat} {s s' : Session} {deed : Deed} {h : List Moment}

theorem not_names_of_work (work : deed.isWork = true) : deed.names k = false := by
  cases deed with
  | take signal => rfl
  | fire t => rfl
  | _ => cases work

theorem Does.unscheduled (does : Does s deed s') (attended : Attended delay s)
    (other : deed.names k = false) (start : Unscheduled k s) : Unscheduled k s' := by
  obtain ⟨c, consumed⟩ := attended.consumed
  obtain ⟨free, unqueued⟩ := start
  cases does with
  | operate op =>
    refine ⟨(generation?_operate op s k).trans free, ?_⟩
    rw [queues_of_not_accepts consumed fun fires => ?_, unqueued]
    exact absurd (key_of_fires fires) (of_decide_eq_false other)
  | @take signal channel running ready =>
    have taken :=
      (Channel.perm_of_tryRecv (Channel.tryRecv_of_poll ready)).any_eq (f := (·.key = k))
    rw [queues, ← taken, List.any_cons, Bool.or_eq_false_iff, decide_eq_false_iff_not] at unqueued
    obtain ⟨apart, unqueued⟩ := unqueued
    refine ⟨?_, ?_⟩
    · rcases schedule_cases signal.key { s with monitor := { s.monitor with channel } } with
        same | ⟨delay, run, generations, consumer⟩
      · rw [same]
        exact free
      · rw [generation?, show s.consumer = _ from consumer] at free
        rw [schedule_of_delay consumer]
        simpa [generation?, Ne.symm apart] using free
    · rw [queues, monitor_schedule]
      exact unqueued
  | @fire t waiting due =>
    refine ⟨?_, ?_⟩
    · refine (generation?_fire fun of_key c consumed => ?_).trans free
      rw [generation?, show s.consumer = some c from consumed, Option.bind_some] at free
      rw [free]
      intro newest
      cases newest
    · rw [queues, channel_fire]
      exact unqueued
  | advance milliseconds => exact ⟨free, unqueued⟩
  | stop =>
    rw [generation?, consumed] at free
    rw [Session.stop, consumed]
    exact ⟨free, queues_of_pending (Channel.pending_dropStream _) k⟩

theorem Does.undisturbed (does : Does s deed s') (orderly : Moment.Orderly delay ⟨s, deed⟩)
    (other : deed.names k = false) (start : Attended delay s ∧ Unscheduled k s) :
    Attended delay s' ∧ Unscheduled k s' :=
  ⟨start.1.does does orderly, does.unscheduled start.1 other start.2⟩

/-- A key that nothing names gets no release. -/
theorem Path.undisturbed (path : Path s h s') (orderly : ∀ m ∈ h, m.Orderly delay)
    (others : ∀ deed ∈ given h, deed.names k = false) (start : Attended delay s ∧ Unscheduled k s) :
    Attended delay s' ∧ Unscheduled k s' := by
  refine path.invariant (P := fun _ s => Attended delay s ∧ Unscheduled k s) ?_ start
  intro past s deed s' inside does start
  refine does.undisturbed (orderly _ inside) ?_ start
  by_cases work : deed.isWork = true
  · exact not_names_of_work work
  · exact others deed (mem_given inside (by simpa using work))

/-- Without a delay, nothing waits where no work is ready. -/
theorem Attended.unscheduled_of_settled (attended : Attended 0 s) (settled : s.Settled) (k : Key) :
    Unscheduled k s := by
  refine ⟨?_, queues_of_pending (attended.pending_of_settled settled) k⟩
  obtain ⟨running, generations, consumer, tracks⟩ := attended.consumer
  obtain ⟨deadline, tracked⟩ := tracks k
  rw [generation?, consumer, Option.bind_some]
  rcases newest : generations k with _ | generation
  · exact newest
  · rw [newest] at tracked
    obtain ⟨due, -, waiting, -⟩ := tracked
    exact absurd (attended.bounded _ waiting) (Nat.not_le.2 (settled.ahead waiting))

theorem unscheduled_new (settings : Monitor.Settings) (consumed : Bool) (delay : Option Nat) :
    Unscheduled k (.new (.new settings) consumed delay) := by
  refine ⟨by cases consumed <;> rfl, queues_of_pending ?_ k⟩
  simp [Session.new, Monitor.new, Channel.new, Channel.pending]

end Unscheduled

/-! ### Debts -/

/-- No timer is due. -/
def Ahead (s : Session) : Prop :=
  ∀ t ∈ s.timers, s.now < t.due

/-- The sessions are alike to the key and owe it the same; or the first one owes it something that
will do nothing, since its gate is free and the next signal of it that is dropped finds that the
debt is paid. -/
structure InDebt (k : Key) (delay : Nat) (h h' : List Moment) (s t : Session) : Prop where
  alike : Alike k h h' s t
  attended : Attended delay s
  attended' : Attended delay t
  accepted : List.Forall₂ (AcceptedAlike k) (outside h) (outside h')
  owes : ∃ due due', Owes k delay due False s ∧ Owes k delay due' False t ∧
    (due' = due ∨ due' = none ∧ ¬s.monitor.Holds k ∧ Unencumbered k h)

section InDebt

variable {k : Key} {delay : Nat} {s s' t t' : Session} {h h' : List Moment} {op : Monitor.Op}

theorem InDebt.operate
    (debt : InDebt k delay (⟨s, .operate op⟩ :: h) (⟨t, .operate op⟩ :: h') s t) :
    InDebt k delay h h' (s.operate op).2 (t.operate op).2 ∧
      Moment.answerTo? k ⟨t, .operate op⟩ = Moment.answerTo? k ⟨s, .operate op⟩ := by
  obtain ⟨alike, attended, attended', accepted, due, due', owes, owes', same⟩ := debt
  obtain ⟨c, consumed⟩ := attended.consumed
  obtain ⟨c', consumed'⟩ := attended'.consumed
  have now := alike.now
  obtain ⟨alike, answer, fires_iff⟩ := alike.operate
  obtain ⟨first, later⟩ := List.forall₂_cons.1 accepted
  refine ⟨⟨alike, attended.operate op, attended'.operate op, later, ?_⟩, answer⟩
  by_cases fires : Moment.Fires k ⟨s, .operate op⟩
  · have fires' := fires_iff.2 fires
    have accepts : t.monitor.channel.accepts op.worker = s.monitor.channel.accepts op.worker :=
      first _ (accepted?_of_fires fires) _ (accepted?_of_fires fires')
    by_cases sent : s.monitor.channel.accepts op.worker = true
    · -- from now on both owe the release of this signal, whatever they owed before
      refine ⟨_, _, owes.accepted fires sent, owes'.accepted fires' (accepts.trans sent), .inl ?_⟩
      rw [now]
    · have dropped : s.monitor.channel.accepts op.worker = false := by simpa using sent
      refine ⟨due, due', owes.operate consumed fun _ => dropped,
        owes'.operate consumed' fun _ => accepts.trans dropped, .inl ?_⟩
      rcases same with same | ⟨nothing, -, free⟩
      · exact same
      · -- the gate is taken, and no release may be left for it in the first session either
        have refused := (accepted?_of_fires fires).trans (congrArg some dropped)
        have first := free _ (List.find?_cons_of_pos (by rw [refused]; rfl)) refused
        rw [nothing, owes.nothing first]
  · have quiet : ¬Moment.Fires k ⟨t, .operate op⟩ := fun fires' => fires (fires_iff.1 fires')
    refine ⟨due, due', owes.operate consumed fun here => absurd here fires,
      owes'.operate consumed' fun here => absurd here quiet, ?_⟩
    refine same.imp_right fun ⟨nothing, open_gate, free⟩ => ⟨nothing, fun held => ?_,
      free.of_cons (accepted?_of_not_fires fires)⟩
    exact (holds_of_operate consumed held).elim fires fun before => open_gate before.1

/-- Before a timer is due, the session's own work is taking signals. -/
theorem Owes.own_ahead {deed : Deed} {due : Option Nat} (owes : Owes k delay due False s)
    (positive : 0 < delay) (ahead : Ahead s) (attended : Attended delay s) (does : Does s deed s')
    (work : deed.isWork = true) :
    Owes k delay due False s' ∧ Attended delay s' ∧ Ahead s' ∧
      s'.monitor.registry = s.monitor.registry := by
  cases does with
  | @take signal channel running ready =>
    have waiting := (attended.waiting_schedule (.inr ahead) channel signal.key).resolve_left
      positive.ne'
    exact ⟨owes.take attended ready (.inr ⟨ahead, id⟩), attended.take running (.inr ahead), waiting,
      by rw [monitor_schedule]⟩
  | fire waiting due => exact absurd due (Nat.not_le.2 (ahead _ waiting))
  | operate op => cases work
  | advance milliseconds => cases work
  | stop => cases work

theorem InDebt.own {deed : Deed} (debt : InDebt k delay (⟨s, deed⟩ :: h) h' s t)
    (positive : 0 < delay) (ahead : Ahead s) (does : Does s deed s') (work : deed.isWork = true) :
    InDebt k delay h h' s' t ∧ Ahead s' := by
  obtain ⟨alike, attended, attended', accepted, due, due', owes, owes', same⟩ := debt
  obtain ⟨owes, attended, ahead, registry⟩ := owes.own_ahead positive ahead attended does work
  rw [outside_cons_of_work work] at accepted
  refine ⟨⟨alike.own does work (by rw [registry]), attended, attended', accepted, due, due', owes,
    owes', same.imp_right fun ⟨nothing, free, unencumbered⟩ => ⟨nothing, ?_, ?_⟩⟩, ahead⟩
  · rw [Monitor.Holds, registry]
    exact free
  · exact unencumbered.of_cons (accepted?_of_work work)

theorem InDebt.own' {deed : Deed} (debt : InDebt k delay h (⟨t, deed⟩ :: h') s t)
    (positive : 0 < delay) (ahead : Ahead t) (does : Does t deed t') (work : deed.isWork = true) :
    InDebt k delay h h' s t' ∧ Ahead t' := by
  obtain ⟨alike, attended, attended', accepted, due, due', owes, owes', same⟩ := debt
  obtain ⟨owes', attended', ahead, registry⟩ := owes'.own_ahead positive ahead attended' does work
  rw [outside_cons_of_work work] at accepted
  exact ⟨⟨alike.own' does work (by rw [registry]), attended, attended', accepted, due, due', owes,
    owes', same⟩, ahead⟩

/-- When each has paid off what has come due, the sessions are in debt as before. -/
theorem InDebt.settle {own own' future future' : List Moment}
    (debt : InDebt k delay (own ++ future) (own' ++ future') s t) (path : Path s own s')
    (path' : Path t own' t') (nothing : given own = []) (nothing' : given own' = [])
    (orderly : ∀ m ∈ own, m.Orderly delay) (orderly' : ∀ m ∈ own', m.Orderly delay)
    (settled : s'.Settled) (settled' : t'.Settled) : InDebt k delay future future' s' t' := by
  obtain ⟨alike, attended, attended', accepted, due, due', owes, owes', same⟩ := debt
  obtain ⟨now, owes, find⟩ := path.pays_off nothing orderly settled attended owes
  obtain ⟨now', owes', find'⟩ := path'.pays_off nothing' orderly' settled' attended' owes'
  have around := path.surroundings
  have around' := path'.surroundings
  rw [nothing] at around
  rw [nothing'] at around'
  obtain ⟨-, thresholds, policy, capacity⟩ := Surroundings.mk.inj around
  obtain ⟨-, thresholds', policy', capacity'⟩ := Surroundings.mk.inj around'
  have admitted := alike.admitted
  simp only [outside_append, outside_of_given nothing, outside_of_given nothing',
    List.nil_append] at accepted admitted
  -- a release that only the first session owes finds the gate free
  have unmoved (free : ¬s.monitor.Holds k) :
      s'.monitor.registry.find? k = s.monitor.registry.find? k := by
    rw [find, map_released_of_free free, ite_self]
  have pressure : t'.monitor.registry.find? k = s'.monitor.registry.find? k := by
    rcases same with rfl | ⟨rfl, free, -⟩
    · rw [find, find', alike.now, alike.same.find]
    · rw [unmoved free, find', ← alike.same.find]
      rfl
  refine ⟨⟨⟨pressure, ?_, ?_⟩, ?_, ?_, admitted⟩, attended.along path orderly,
    attended'.along path' orderly', accepted, _, _, owes, owes', ?_⟩
  · rw [thresholds', thresholds, alike.same.thresholds]
  · rw [policy', policy, alike.same.policy]
  · rw [now', now, alike.now]
  · rw [capacity', capacity, alike.capacity]
  · rw [alike.now]
    refine same.imp (fun same => by rw [same]) fun ⟨none_owed, free, unencumbered⟩ => ?_
    refine ⟨by rw [none_owed]; rfl, fun held => free ?_, unencumbered.of_own nothing⟩
    obtain ⟨p, watched, gated⟩ := held
    exact ⟨p, (unmoved free).symm.trans watched, gated⟩

/-! ### Steps -/

theorem Ahead.operate (ahead : Ahead s) (op : Monitor.Op) : Ahead (s.operate op).2 := by
  obtain ⟨monitor, same⟩ := operate_eq op s
  rw [same]
  exact ahead

/-- Operations keep the sessions in debt, and so does their own work between them if there is a
delay. -/
theorem InDebt.path {future future' : List Moment}
    (debt : InDebt k delay (h ++ future) (h' ++ future') s t) (path : Path s h s')
    (path' : Path t h' t') (same : given h' = given h)
    (operations : ∀ deed ∈ given h, ∃ op, deed = .operate op)
    (between : ∀ m ∈ h ++ h', m.deed.isWork = true → 0 < delay)
    (ahead : 0 < delay → Ahead s ∧ Ahead t) :
    InDebt k delay future future' s' t' ∧
      (outside h').map (·.answerTo? k) = (outside h).map (·.answerTo? k) := by
  refine (path.lockstep
    (R := fun h h' s t => InDebt k delay h h' s t ∧ (0 < delay → Ahead s ∧ Ahead t))
    (f := (·.answerTo? k)) path' same ?_ ?_ ?_ ⟨debt, ahead⟩).imp_left And.left
  · rintro s deed s' t rest rest' inside work does ⟨debt, ahead⟩
    have positive := between _ (List.mem_append_left _ inside) work
    obtain ⟨debt, ahead₁⟩ := debt.own positive (ahead positive).1 does work
    exact ⟨debt, fun _ => ⟨ahead₁, (ahead positive).2⟩⟩
  · rintro t deed t' s rest rest' inside work does ⟨debt, ahead⟩
    have positive := between _ (List.mem_append_right _ inside) work
    obtain ⟨debt, ahead₁⟩ := debt.own' positive (ahead positive).2 does work
    exact ⟨debt, fun _ => ⟨(ahead positive).1, ahead₁⟩⟩
  · rintro s t deed s' t' rest rest' inside - asked does does' ⟨debt, ahead⟩
    obtain ⟨op, rfl⟩ := operations deed (mem_given inside asked)
    cases does
    cases does'
    obtain ⟨debt, answer⟩ := debt.operate
    exact ⟨⟨debt, fun positive => ⟨(ahead positive).1.operate op, (ahead positive).2.operate op⟩⟩,
      answer⟩

/-- Without a delay, operations that do not name the key may come anywhere between the sessions' own
work. -/
theorem InDebt.unnamed {future future' : List Moment}
    (debt : InDebt k 0 (h ++ future) (h' ++ future') s t) (rest : s.Settled) (rest' : t.Settled)
    (path : Path s h s') (path' : Path t h' t') (same : given h' = given h)
    (operations : ∀ deed ∈ given h, ∃ op, deed = .operate op)
    (others : ∀ deed ∈ given h, deed.names k = false) :
    InDebt k 0 future future' s' t' ∧
      (outside h').map (·.answerTo? k) = (outside h).map (·.answerTo? k) := by
  obtain ⟨alike, attended, attended', accepted, -⟩ := debt
  obtain ⟨orderly, -⟩ := path.orderly_of_operations attended (.inl rfl) operations
  obtain ⟨orderly', -⟩ := path'.orderly_of_operations attended' (.inl rfl) (same ▸ operations)
  have idle := attended.unscheduled_of_settled rest k
  have idle' := attended'.unscheduled_of_settled rest' k
  have lockstep : ((Alike k future future' s' t' ∧
      List.Forall₂ (AcceptedAlike k) (outside future) (outside future')) ∧
      (Attended 0 s' ∧ Unscheduled k s') ∧ Attended 0 t' ∧ Unscheduled k t') ∧
        (outside h').map (·.answerTo? k) = (outside h).map (·.answerTo? k) := by
    refine path.lockstep (R := fun h h' s t => (Alike k h h' s t ∧
        List.Forall₂ (AcceptedAlike k) (outside h) (outside h')) ∧
        (Attended 0 s ∧ Unscheduled k s) ∧ Attended 0 t ∧ Unscheduled k t) path' same ?_ ?_ ?_
      ⟨⟨alike, accepted⟩, ⟨attended, idle⟩, attended', idle'⟩
    · rintro s deed s' t rest rest' inside work does ⟨⟨alike, accepted⟩, left, right⟩
      rw [outside_cons_of_work work] at accepted
      exact ⟨⟨alike.own does work (find_of_work does work (.inl left.2.1)), accepted⟩,
        does.undisturbed (orderly _ inside) (not_names_of_work work) left, right⟩
    · rintro t deed t' s rest rest' inside work does ⟨⟨alike, accepted⟩, left, right⟩
      rw [outside_cons_of_work work] at accepted
      exact ⟨⟨alike.own' does work (find_of_work does work (.inl right.2.1)), accepted⟩, left,
        does.undisturbed (orderly' _ inside) (not_names_of_work work) right⟩
    · rintro s t deed s' t' rest rest' inside inside' asked does does'
        ⟨⟨alike, accepted⟩, left, right⟩
      have other := others deed (mem_given inside asked)
      obtain ⟨alike, answer⟩ := alike.asked asked does does'
      rw [outside_cons_of_not_work (m := ⟨s, deed⟩) asked,
        outside_cons_of_not_work (m := ⟨t, deed⟩) asked] at accepted
      exact ⟨⟨⟨alike, (List.forall₂_cons.1 accepted).2⟩,
        does.undisturbed (orderly _ inside) other left,
        does'.undisturbed (orderly' _ inside') other right⟩, answer⟩
  obtain ⟨⟨⟨alike, accepted⟩, ⟨attended, idle⟩, attended', idle'⟩, answers⟩ := lockstep
  obtain ⟨due, owes⟩ := attended.owes k
  obtain ⟨due', owes'⟩ := attended'.owes k
  refine ⟨⟨alike, attended, attended', accepted, due, due', owes, owes', .inl ?_⟩, answers⟩
  rw [owes.nothing idle, owes'.nothing idle']

/-- Operations until no work is ready; without a delay all of them come first. -/
theorem InDebt.operations {future future' : List Moment}
    (debt : InDebt k delay (h ++ future) (h' ++ future') s t) (path : Path s h s')
    (path' : Path t h' t') (same : given h' = given h)
    (operations : ∀ deed ∈ given h, ∃ op, deed = .operate op)
    (ahead : delay = 0 ∨ Ahead s) (ahead' : delay = 0 ∨ Ahead t)
    (prompt : delay = 0 → Prompt h ∧ Prompt h') (settled : s'.Settled) (settled' : t'.Settled) :
    InDebt k delay future future' s' t' ∧
      (outside h').map (·.answerTo? k) = (outside h).map (·.answerTo? k) := by
  rcases Nat.eq_zero_or_pos delay with zero | positive
  · -- a release may come as soon as its signal is taken, so the two kinds of work are kept apart
    have orderly := (path.orderly_of_operations debt.attended ahead operations).1
    have orderly' := (path'.orderly_of_operations debt.attended' ahead' (same ▸ operations)).1
    obtain ⟨own, split, nothing⟩ := (prompt zero).1.split
    obtain ⟨own', split', nothing'⟩ := (prompt zero).2.split
    rw [split] at path orderly
    rw [split'] at path' orderly'
    rw [split, split', List.append_assoc, List.append_assoc] at debt
    obtain ⟨s₁, path₁, path₂⟩ := path.split
    obtain ⟨t₁, path₁', path₂'⟩ := path'.split
    obtain ⟨debt, answers⟩ := debt.path path₁ path₁' (by rw [given_outside, given_outside, same])
      (by rw [given_outside]; exact operations)
      (fun m inside work => by
        rcases List.mem_append.1 inside with asked | asked <;>
          simp [not_work_of_outside asked] at work)
      (fun positive => absurd zero positive.ne')
    rw [outside_outside, outside_outside] at answers
    exact ⟨debt.settle path₂ path₂' nothing nothing'
      (fun m inside => orderly m (List.mem_append_right _ inside))
      (fun m inside => orderly' m (List.mem_append_right _ inside)) settled settled', answers⟩
  · exact debt.path path path' same operations (fun _ _ _ => positive) fun _ =>
      ⟨ahead.resolve_left positive.ne', ahead'.resolve_left positive.ne'⟩

theorem InDebt.advance {milliseconds : Nat}
    (debt : InDebt k delay (⟨s, .advance milliseconds⟩ :: h) (⟨t, .advance milliseconds⟩ :: h') s t)
    (empty : s.monitor.channel.pending = 0) (empty' : t.monitor.channel.pending = 0) :
    InDebt k delay h h' { s with now := s.now + milliseconds }
      { t with now := t.now + milliseconds } := by
  obtain ⟨alike, attended, attended', accepted, due, due', owes, owes', same⟩ := debt
  exact ⟨(alike.asked rfl (.advance _) (.advance _)).1, attended.advance _, attended'.advance _,
    (List.forall₂_cons.1 accepted).2, due, due', owes.advance empty _, owes'.advance empty' _,
    same.imp_right fun ⟨nothing, free, unencumbered⟩ =>
      ⟨nothing, free, unencumbered.of_cons rfl⟩⟩

theorem InDebt.stop (debt : InDebt k delay (⟨s, .stop⟩ :: h) (⟨t, .stop⟩ :: h') s t)
    (empty : s.monitor.channel.pending = 0) (empty' : t.monitor.channel.pending = 0) :
    InDebt k delay h h' s.stop t.stop := by
  obtain ⟨alike, attended, attended', accepted, due, due', owes, owes', same⟩ := debt
  obtain ⟨c, consumed⟩ := attended.consumed
  obtain ⟨c', consumed'⟩ := attended'.consumed
  refine ⟨(alike.asked rfl .stop .stop).1, attended.stop, attended'.stop,
    (List.forall₂_cons.1 accepted).2, due, due', owes.stop consumed empty,
    owes'.stop consumed' empty', same.imp_right fun ⟨nothing, free, unencumbered⟩ =>
      ⟨nothing, fun held => free ?_, unencumbered.of_cons rfl⟩⟩
  obtain ⟨p, watched, gated⟩ := held
  exact ⟨p, (sameTo_stop (k := k) s).1.find.symm.trans watched, gated⟩

theorem isConsuming_stop (s : Session) : s.stop.isConsuming = false := by
  rw [Session.stop]
  split
  · next unconsumed => rw [isConsuming, unconsumed]; rfl
  · rfl

/-- Whatever a step asks for, it keeps the sessions in debt from rest to rest.  Without a delay,
what names the key has to come first. -/
theorem InDebt.stage {st : Step} {future future' : List Moment}
    (debt : InDebt k delay (h ++ future) (h' ++ future') s t) (rest : s.Settled) (rest' : t.Settled)
    (path : Path s h s') (path' : Path t h' t') (asked : given h = st.deeds)
    (asked' : given h' = st.deeds)
    (first : delay = 0 → Prompt h ∧ Prompt h' ∨ ∀ deed ∈ st.deeds, deed.names k = false)
    (settled : s'.Settled) (settled' : t'.Settled) :
    InDebt k delay future future' s' t' ∧
      (outside h').map (·.answerTo? k) = (outside h).map (·.answerTo? k) := by
  have empty := debt.attended.pending_of_settled rest
  have empty' := debt.attended'.pending_of_settled rest'
  rcases st.deeds_cases with ⟨milliseconds, same⟩ | same | operations
  · -- where nothing is left to do, what comes first is the one deed of the step
    obtain ⟨s₁, own, rfl, does, path, nothing⟩ := path.of_settled rest (asked.trans same)
    obtain ⟨t₁, own', rfl, does', path', nothing'⟩ := path'.of_settled rest' (asked'.trans same)
    cases does
    cases does'
    refine ⟨(debt.advance empty empty').settle path path' nothing nothing'
      (path.orderly_of_nothing empty nothing) (path'.orderly_of_nothing empty' nothing') settled
      settled', ?_⟩
    rw [outside_cons_of_not_work rfl, outside_cons_of_not_work rfl, outside_of_given nothing,
      outside_of_given nothing']
    rfl
  · obtain ⟨s₁, own, rfl, does, path, nothing⟩ := path.of_settled rest (asked.trans same)
    obtain ⟨t₁, own', rfl, does', path', nothing'⟩ := path'.of_settled rest' (asked'.trans same)
    cases does
    cases does'
    have stopped : s.stop.monitor.channel.pending = 0 :=
      (debt.attended.stop.closed (isConsuming_stop s)).2
    have stopped' : t.stop.monitor.channel.pending = 0 :=
      (debt.attended'.stop.closed (isConsuming_stop t)).2
    refine ⟨(debt.stop empty empty').settle path path' nothing nothing'
      (path.orderly_of_nothing stopped nothing) (path'.orderly_of_nothing stopped' nothing')
      settled settled', ?_⟩
    rw [outside_cons_of_not_work rfl, outside_cons_of_not_work rfl, outside_of_given nothing,
      outside_of_given nothing']
    rfl
  · by_cases others : delay = 0 ∧ ∀ deed ∈ st.deeds, deed.names k = false
    · obtain ⟨rfl, others⟩ := others
      exact debt.unnamed rest rest' path path' (asked'.trans asked.symm) (asked ▸ operations)
        (asked ▸ others)
    · have prompt : delay = 0 → Prompt h ∧ Prompt h' := fun zero =>
        (first zero).resolve_right fun unnamed => others ⟨zero, unnamed⟩
      exact debt.operations path path' (asked'.trans asked.symm) (asked ▸ operations)
        (.inr fun _ => rest.ahead) (.inr fun _ => rest'.ahead) prompt settled settled'

end InDebt

/-- Sessions that are in debt alike stay alike to the key. -/
theorem Account.seen_of_inDebt {k : Key} {delay : Nat} {steps : List Step}
    {stages stages' : List Stage} {s s' t t' : Session} (account : Account s steps stages s')
    (account' : Account t steps stages' t')
    (instant : delay = 0 → ∀ st ∈ steps, st.Instant ∨ ∀ deed ∈ st.deeds, deed.names k = false)
    (rest : s.Settled) (rest' : t.Settled)
    (debt : InDebt k delay (stages.flatMap (·.moments)) (stages'.flatMap (·.moments)) s t) :
    stages'.map (·.seenOf k) = stages.map (·.seenOf k) := by
  refine account.lockstep
    (R := fun h h' s t => InDebt k delay h h' s t ∧ s.Settled ∧ t.Settled) account' ?_
    (fun related => related.1.alike.stats) ⟨debt, rest, rest'⟩
  rintro st h h' s s' t t' future future' inside first first' ⟨debt, rest, rest'⟩
  obtain ⟨path, asked, settled, prompt⟩ := first.single
  obtain ⟨path', asked', settled', prompt'⟩ := first'.single
  obtain ⟨debt, answers⟩ := debt.stage rest rest' path path' asked asked'
    (fun zero => (instant zero st inside).imp_left fun instant =>
      ⟨prompt instant, prompt' instant⟩) settled settled'
  exact ⟨⟨debt, settled, settled'⟩, answers⟩

end ScaleWatch.Session
