import ScaleWatch.Proofs.Session.Owed

/-!
# Sessions that are alike to a key

Two sessions in which the same is asked for may differ in many ways that do not show to a key: in
other keys, in the order of their own work, in what is queued.  `Alike` says that they look the same
to the key now, and that it will be admitted alike.

What is asked for from outside keeps the sessions alike (`Alike.asked`), and their own work does so
if neither of them releases the gate of the key by itself (`Account.seen_of_leavesAlone`).
-/

namespace ScaleWatch.Session

/-! ### What no operation on a key changes -/

/-- What a session has besides its keys, its signals and its timers. -/
structure Surroundings where
  now : Nat
  thresholds : Bounds.Slots
  policy : GatePolicy
  capacity : Nat

def surroundings (s : Session) : Surroundings :=
  ⟨s.now, s.monitor.thresholds, s.monitor.policy, s.monitor.registry.capacity⟩

/-- An operation that names the key. -/
def Deed.names (k : Key) : Deed → Bool
  | operate op => op.key? = some k
  | take _ | fire _ | advance _ | stop => false

/-- What becomes of the surroundings. -/
def Deed.onSurroundings (x : Surroundings) : Deed → Surroundings
  | operate op => { x with thresholds := op.onThresholds x.thresholds }
  | advance milliseconds => { x with now := x.now + milliseconds }
  | take _ | fire _ | stop => x

section Surroundings

variable {k : Key} {s s' : Session} {deed : Deed}

theorem onSurroundings_of_work (work : deed.isWork = true) (x : Surroundings) :
    deed.onSurroundings x = x := by
  cases deed with
  | take signal => rfl
  | fire t => rfl
  | _ => cases work

theorem onSurroundings_of_names (named : deed.names k = true) (x : Surroundings) :
    deed.onSurroundings x = x := by
  cases deed with
  | operate op =>
    cases op with
    | store b => cases named
    | writeSlot index value => cases named
    | _ => rfl
  | _ => cases named

theorem surroundings_operate (op : Monitor.Op) (s : Session) :
    (s.operate op).2.surroundings = (Deed.operate op).onSurroundings s.surroundings := by
  rw [operate]
  split
  · next answer same =>
    obtain ⟨c, -, stream⟩ := Option.bind_eq_some_iff.1 same
    cases op <;> first | rfl | cases stream
  · simp only [surroundings, Deed.onSurroundings, Monitor.thresholds_step,
      (Monitor.leads_step op s.monitor).policy, (Monitor.numbers_step op s.monitor).1]

theorem Does.surroundings (does : Does s deed s') :
    s'.surroundings = deed.onSurroundings s.surroundings := by
  cases does with
  | operate op => exact surroundings_operate op s
  | @take signal channel running ready =>
    rcases schedule_cases signal.key { s with monitor := { s.monitor with channel } } with
      same | ⟨delay, run, generations, consumer⟩
    · rw [same]
      rfl
    · rw [schedule_of_delay consumer]
      rfl
  | @fire t waiting due =>
    rcases fire_cases t { s with timers := s.timers.erase t } with idle | ⟨c, consumed, newest⟩
    · rw [idle]
      rfl
    · obtain ⟨registry, cleared, capacity, -⟩ := Agenda.clearGate_eq t.key s.monitor
      rw [fire_of_newest consumed newest, cleared]
      simp only [Session.surroundings, Deed.onSurroundings, capacity]
  | advance milliseconds => rfl
  | stop =>
    rw [Session.stop]
    split <;> rfl

theorem Path.surroundings {h : List Moment} (path : Path s h s') :
    s'.surroundings = (given h).foldl (fun x deed => deed.onSurroundings x) s.surroundings := by
  induction path with
  | done s => rfl
  | @next s s' s'' deed h does _ ih =>
    rw [ih, does.surroundings]
    by_cases work : deed.isWork = true
    · rw [given_cons_of_work (m := ⟨s, deed⟩) work, onSurroundings_of_work work]
    · rw [given_cons_of_not_work (m := ⟨s, deed⟩) (by simpa using work)]
      rfl

/-- Without what names the key, the surroundings are the same in the end. -/
theorem foldl_onSurroundings_filter (k : Key) (deeds : List Deed) (x : Surroundings) :
    (deeds.filter (!·.names k)).foldl (fun x deed => deed.onSurroundings x) x =
      deeds.foldl (fun x deed => deed.onSurroundings x) x := by
  induction deeds generalizing x with
  | nil => rfl
  | cons deed deeds ih =>
    by_cases named : deed.names k = true
    · rw [List.filter_cons_of_neg (by simp [named]), List.foldl_cons,
        onSurroundings_of_names named]
      exact ih x
    · rw [List.filter_cons_of_pos (by simp [named]), List.foldl_cons, List.foldl_cons]
      exact ih (deed.onSurroundings x)

end Surroundings

/-! ### What a key sees -/

/-- The answer to an operation that names the key. -/
def Moment.answerTo? (k : Key) (m : Moment) : Option Monitor.Answer :=
  match m.deed with
  | .operate op => if op.key? = some k then some (m.session.operate op).1 else none
  | _ => none

/-- Whether there is a place for the key, when it is to be registered. -/
def Moment.admitted? (k : Key) (m : Moment) : Option Bool :=
  if m.deed = .operate (.register k) then
    some (m.answerTo? k ≠ some (.refused (.registryFull m.session.monitor.registry.capacity)))
  else none

/-- To the key both sessions look the same, and in what is still to come it is admitted alike. -/
structure Alike (k : Key) (h h' : List Moment) (s t : Session) : Prop where
  same : Monitor.SameTo k s.monitor t.monitor
  now : t.now = s.now
  capacity : t.monitor.registry.capacity = s.monitor.registry.capacity
  admitted : (outside h').map (·.admitted? k) = (outside h).map (·.admitted? k)

section Moments

variable {k : Key} {s : Session} {op : Monitor.Op} {m : Moment} {h : List Moment}

theorem concerns_of_key (named : op.key? = some k) : op.concerns k = true := by
  cases op with
  | tryRecv => cases named
  | poll => cases named
  | drain => cases named
  | dropStream => cases named
  | _ => simp [Monitor.Op.concerns, named, Monitor.Op.isOnStream]

theorem direct_of_concerns (concerns : op.concerns k = true) : op.isOnStream = false := by
  rw [Monitor.Op.concerns, Bool.and_eq_true] at concerns
  simpa using concerns.2

theorem key_of_fires (fires : Moment.Fires k ⟨s, .operate op⟩) : op.key? = some k := by
  obtain ⟨d, firing⟩ := fires
  obtain ⟨k', named, answered⟩ := Option.bind_eq_some_iff.1 firing
  obtain ⟨d', -, same⟩ := Option.map_eq_some_iff.1 answered
  cases same
  exact named

/-- What does not concern the key does not show to it. -/
theorem sameTo_operate (other : op.concerns k = false) (s : Session) :
    Monitor.SameTo k s.monitor (s.operate op).2.monitor := by
  rw [operate]
  split
  · exact ⟨rfl, rfl, rfl⟩
  · exact Monitor.sameTo_step_other other s.monitor

theorem sameTo_stop (s : Session) :
    Monitor.SameTo k s.monitor s.stop.monitor ∧ s.stop.now = s.now ∧
      s.stop.monitor.registry.capacity = s.monitor.registry.capacity := by
  rw [stop]
  split <;> exact ⟨⟨rfl, rfl, rfl⟩, rfl, rfl⟩

end Moments

/-! ### What keeps sessions alike -/

section Alike

variable {k : Key} {s s' t t' : Session} {h h' : List Moment} {op : Monitor.Op}

/-- The session's own work leaves the sessions alike, if the pressure on the key stays the same. -/
theorem Alike.own {deed : Deed} (alike : Alike k (⟨s, deed⟩ :: h) h' s t)
    (does : Does s deed s') (work : deed.isWork = true)
    (find : s'.monitor.registry.find? k = s.monitor.registry.find? k) : Alike k h h' s' t := by
  obtain ⟨now, thresholds, policy, capacity⟩ :=
    Surroundings.mk.inj (does.surroundings.trans (onSurroundings_of_work work s.surroundings))
  refine ⟨Monitor.SameTo.trans (Monitor.SameTo.symm ⟨find, thresholds, policy⟩) alike.same,
    alike.now.trans now.symm, alike.capacity.trans capacity.symm, ?_⟩
  rw [alike.admitted, outside_cons_of_work work]

theorem Alike.symm (alike : Alike k h h' s t) : Alike k h' h t s :=
  ⟨alike.same.symm, alike.now.symm, alike.capacity.symm, alike.admitted.symm⟩

theorem Alike.own' {deed : Deed} (alike : Alike k h (⟨t, deed⟩ :: h') s t)
    (does : Does t deed t') (work : deed.isWork = true)
    (find : t'.monitor.registry.find? k = t.monitor.registry.find? k) : Alike k h h' s t' :=
  (alike.symm.own does work find).symm

/-- The key is admitted or refused in both sessions. -/
theorem Alike.answer_register
    (alike : Alike k (⟨s, .operate (.register k)⟩ :: h) (⟨t, .operate (.register k)⟩ :: h') s t) :
    (t.monitor.step (.register k)).1 = (s.monitor.step (.register k)).1 := by
  have direct : (Monitor.Op.register k).isOnStream = false := rfl
  have first := (List.cons.inj alike.admitted).1
  simp only [Moment.admitted?, if_true, Moment.answerTo?, Monitor.Op.key?, answer_of_direct direct,
    Option.some_inj, alike.capacity] at first
  rw [Monitor.answer_register, Monitor.answer_register, alike.same.contains, alike.capacity] at *
  by_cases watched : s.monitor.registry.contains k = true
  · rw [if_pos watched, if_pos watched]
  rw [if_neg watched, if_neg watched] at *
  -- the key is new in both; a place in only one of them is what `admitted` rules out
  by_cases room : s.monitor.registry.reserved < s.monitor.registry.capacity <;>
    by_cases room' : t.monitor.registry.reserved < s.monitor.registry.capacity
  · rw [if_pos room, if_pos room']
  · rw [if_pos room, if_neg room'] at first
    simp at first
  · rw [if_neg room, if_pos room'] at first
    simp at first
  · rw [if_neg room, if_neg room']

/-- An operation is answered alike and fires alike, and leaves the sessions alike. -/
theorem Alike.operate
    (alike : Alike k (⟨s, .operate op⟩ :: h) (⟨t, .operate op⟩ :: h') s t) :
    Alike k h h' (s.operate op).2 (t.operate op).2 ∧
      Moment.answerTo? k ⟨t, .operate op⟩ = Moment.answerTo? k ⟨s, .operate op⟩ ∧
      (Moment.Fires k ⟨t, .operate op⟩ ↔ Moment.Fires k ⟨s, .operate op⟩) := by
  obtain ⟨now, -, -, capacity⟩ := Surroundings.mk.inj (surroundings_operate op s)
  obtain ⟨now', -, -, capacity'⟩ := Surroundings.mk.inj (surroundings_operate op t)
  have now := (now'.trans alike.now).trans now.symm
  have capacity := (capacity'.trans alike.capacity).trans capacity.symm
  have admitted := (List.cons.inj alike.admitted).2
  by_cases concerns : op.concerns k = true
  · have direct := direct_of_concerns concerns
    have answer_register : op = .register k →
        (t.monitor.step op).1 = (s.monitor.step op).1 := by
      rintro rfl
      exact alike.answer_register
    have answer := (alike.same.step_eq concerns answer_register).1
    refine ⟨⟨?_, now, capacity, admitted⟩, ?_, ?_⟩
    · rw [operate_of_direct direct, operate_of_direct direct]
      exact alike.same.step_both concerns answer_register
    · simp only [Moment.answerTo?, answer_of_direct direct, answer]
    · simp only [Moment.Fires, Moment.firing?, Monitor.firing?, answer]
  · have other : op.concerns k = false := by simpa using concerns
    have unnamed : op.key? ≠ some k := fun named => concerns (concerns_of_key named)
    refine ⟨⟨?_, now, capacity, admitted⟩, ?_, ?_⟩
    · exact ((sameTo_operate other s).symm.trans alike.same).trans (sameTo_operate other t)
    · simp only [Moment.answerTo?, if_neg unnamed]
    · exact ⟨fun fires => absurd (key_of_fires fires) unnamed,
        fun fires => absurd (key_of_fires fires) unnamed⟩

/-- What is asked for from outside is answered alike, and leaves the sessions alike. -/
theorem Alike.asked {deed : Deed} (alike : Alike k (⟨s, deed⟩ :: h) (⟨t, deed⟩ :: h') s t)
    (asked : deed.isWork = false) (does : Does s deed s') (does' : Does t deed t') :
    Alike k h h' s' t' ∧ Moment.answerTo? k ⟨t, deed⟩ = Moment.answerTo? k ⟨s, deed⟩ := by
  cases does with
  | operate op =>
    cases does'
    obtain ⟨alike, answer, -⟩ := alike.operate
    exact ⟨alike, answer⟩
  | advance milliseconds =>
    cases does'
    exact ⟨⟨alike.same, congrArg (· + milliseconds) alike.now, alike.capacity,
      (List.cons.inj alike.admitted).2⟩, rfl⟩
  | stop =>
    cases does'
    obtain ⟨same, now, capacity⟩ := sameTo_stop (k := k) s
    obtain ⟨same', now', capacity'⟩ := sameTo_stop (k := k) t
    refine ⟨⟨(same.symm.trans alike.same).trans same', ?_, ?_, (List.cons.inj alike.admitted).2⟩,
      rfl⟩
    · rw [now, now', alike.now]
    · rw [capacity, capacity', alike.capacity]
  | take running ready => cases asked
  | fire waiting due => cases asked

end Alike

/-! ### Sessions that leave a gate alone -/

/-- The session never does anything to the gate of the key by itself: its consumer schedules
nothing, or the gate is never held. -/
def LeavesAlone (k : Key) (s : Session) : Prop :=
  (s.generation? k = none ∧ ∀ c, s.consumer = some c → c.delay = none) ∨
    (s.monitor.policy = .ungated ∧ ¬s.monitor.Holds k)

section LeavesAlone

variable {k : Key} {s s' : Session} {deed : Deed}

/-- Under the policy without gates no gate is ever taken. -/
theorem free_step {m : Monitor} (ungated : m.policy = .ungated) (free : ¬m.Holds k)
    (op : Monitor.Op) : ¬(m.step op).2.Holds k := by
  intro held
  rcases Monitor.holds_of_step held with ⟨d, firing⟩ | ⟨before, -⟩
  · obtain ⟨t, b, count, judged, fired⟩ := Monitor.judge_of_firing? firing
    obtain ⟨p, watched, -⟩ := Option.bind_eq_some_iff.1 fired
    obtain ⟨p', find, gated⟩ := held
    rw [(Monitor.leads_step op m).find, judged, watched] at find
    simp only [Monitor.Effect.on, if_true, Option.map_some, Option.some_inj] at find
    subst find
    rcases (Monitor.gated_evaluate _ _ _ _).1 gated with before | ⟨-, latched⟩
    · exact free ⟨p, watched, (Monitor.gated_moved t p).symm.trans before⟩
    · rw [ungated] at latched
      cases latched
  · exact free before

theorem free_does (does : Does s deed s') (ungated : s.monitor.policy = .ungated)
    (free : ¬s.monitor.Holds k) : ¬s'.monitor.Holds k := by
  cases does with
  | operate op =>
    rw [operate]
    split
    · exact free
    · exact free_step ungated free op
  | take running ready =>
    rw [monitor_schedule]
    exact free
  | fire waiting due => exact fun held => free (holds_of_fire held).1
  | advance milliseconds => exact free
  | stop =>
    rw [stop]
    split <;> exact free

theorem unscheduled_does (does : Does s deed s') (unscheduled : s.generation? k = none)
    (undelayed : ∀ c, s.consumer = some c → c.delay = none) :
    s'.generation? k = none ∧ ∀ c, s'.consumer = some c → c.delay = none := by
  cases does with
  | operate op =>
    obtain ⟨monitor, same⟩ := operate_eq op s
    rw [same]
    exact ⟨unscheduled, undelayed⟩
  | @take signal channel running ready =>
    have same : ({ s with monitor := { s.monitor with channel } } : Session).schedule signal.key =
        { s with monitor := { s.monitor with channel } } := by
      rcases schedule_cases signal.key { s with monitor := { s.monitor with channel } } with
        same | ⟨delay, run, generations, consumer⟩
      · exact same
      · cases undelayed _ consumer
    rw [same]
    exact ⟨unscheduled, undelayed⟩
  | @fire t waiting due =>
    rcases fire_cases t { s with timers := s.timers.erase t } with idle | ⟨c, consumed, newest⟩
    · rw [idle]
      exact ⟨unscheduled, undelayed⟩
    · rw [generation?, show s.consumer = some c from consumed] at unscheduled
      rw [fire_of_newest consumed newest]
      refine ⟨?_, fun c' same => ?_⟩
      · simp only [generation?, Option.bind_some]
        split
        · rfl
        · exact unscheduled
      · cases same
        exact undelayed c consumed
  | advance milliseconds => exact ⟨unscheduled, undelayed⟩
  | stop =>
    rw [stop]
    rcases consumed : s.consumer with _ | c
    · refine ⟨unscheduled, fun c' same => ?_⟩
      rw [show s.consumer = some c' from same] at consumed
      cases consumed
    · rw [generation?, consumed] at unscheduled
      refine ⟨unscheduled, fun c' same => ?_⟩
      cases same
      exact undelayed c consumed

theorem LeavesAlone.does (leaves : LeavesAlone k s) (does : Does s deed s') : LeavesAlone k s' := by
  rcases leaves with ⟨unscheduled, undelayed⟩ | ⟨ungated, free⟩
  · exact .inl (unscheduled_does does unscheduled undelayed)
  · exact .inr ⟨does.policy.trans ungated, free_does does ungated free⟩

theorem map_released_of_free {m : Monitor} (free : ¬m.Holds k) :
    (m.registry.find? k).map Agenda.released = m.registry.find? k := by
  rcases watched : m.registry.find? k with _ | p
  · rfl
  · have open_gate : p.gated = false := by simpa using fun gated => free ⟨p, watched, gated⟩
    rw [Option.map_some, Agenda.released, ← open_gate]

/-- The session's own work does nothing to a gate that is free, or for which nothing waits. -/
theorem find_of_work (does : Does s deed s') (work : deed.isWork = true)
    (idle : s.generation? k = none ∨ ¬s.monitor.Holds k) :
    s'.monitor.registry.find? k = s.monitor.registry.find? k := by
  cases does with
  | take running ready => rw [monitor_schedule]
  | @fire t waiting due =>
    rcases fire_cases t { s with timers := s.timers.erase t } with idle | ⟨c, consumed, newest⟩
    · rw [idle]
    · obtain ⟨registry, cleared, -, -, find⟩ := Agenda.clearGate_eq t.key s.monitor
      rw [fire_of_newest consumed newest, cleared]
      refine (find k).trans ?_
      split
      · next here =>
        rcases idle with unscheduled | free
        · rw [generation?, show s.consumer = some c from consumed, Option.bind_some, here,
            newest] at unscheduled
          cases unscheduled
        · exact map_released_of_free free
      · rfl
  | operate op => cases work
  | advance milliseconds => cases work
  | stop => cases work

theorem LeavesAlone.find (leaves : LeavesAlone k s) (does : Does s deed s')
    (work : deed.isWork = true) :
    s'.monitor.registry.find? k = s.monitor.registry.find? k :=
  find_of_work does work (leaves.imp And.left And.right)

theorem leavesAlone_new (settings : Monitor.Settings) {consumed : Bool} {delay : Option Nat}
    (still : consumed = true → settings.policy = .latched → delay = none) (k : Key) :
    LeavesAlone k (.new (.new settings) consumed delay) := by
  cases policy : settings.policy with
  | latched =>
    left
    cases consumed with
    | false => exact ⟨rfl, fun c same => nomatch same⟩
    | true =>
      rw [still rfl policy]
      refine ⟨rfl, fun c same => ?_⟩
      cases same
      rfl
  | ungated =>
    right
    refine ⟨policy, ?_⟩
    rintro ⟨p, watched, -⟩
    cases watched

end LeavesAlone

section Lockstep

variable {k : Key} {s s' t t' : Session} {h h' future future' : List Moment}

theorem Path.alike_of_leavesAlone (path : Path s h s') (path' : Path t h' t')
    (same : given h' = given h) (alike : Alike k (h ++ future) (h' ++ future') s t)
    (leaves : LeavesAlone k s) (leaves' : LeavesAlone k t) :
    (Alike k future future' s' t' ∧ LeavesAlone k s' ∧ LeavesAlone k t') ∧
      (outside h').map (·.answerTo? k) = (outside h).map (·.answerTo? k) := by
  refine path.lockstep (R := fun h h' s t => Alike k h h' s t ∧ LeavesAlone k s ∧ LeavesAlone k t)
    path' same ?_ ?_ ?_ ⟨alike, leaves, leaves'⟩
  · rintro s deed s' t rest rest' - work does ⟨alike, leaves, leaves'⟩
    exact ⟨alike.own does work (leaves.find does work), leaves.does does, leaves'⟩
  · rintro t deed t' s rest rest' - work does ⟨alike, leaves, leaves'⟩
    exact ⟨alike.own' does work (leaves'.find does work), leaves, leaves'.does does⟩
  · rintro s t deed s' t' rest rest' - - asked does does' ⟨alike, leaves, leaves'⟩
    obtain ⟨alike, answer⟩ := alike.asked asked does does'
    exact ⟨⟨alike, leaves.does does, leaves'.does does'⟩, answer⟩

/-- What is seen of the key in each step: the answers to operations that name it, and its
statistics after the step. -/
def Stage.seenOf (k : Key) (stage : Stage) : List (Option Monitor.Answer) × Option Stats :=
  stage.seen (·.answerTo? k) (·.monitor.stats? k)

theorem Alike.stats (alike : Alike k h h' s t) : t.monitor.stats? k = s.monitor.stats? k := by
  rw [Monitor.stats?, Monitor.stats?, Registry.stats?, Registry.stats?, alike.same.find]

/-- Sessions that leave the gate of the key alone stay alike to it. -/
theorem Account.seen_of_leavesAlone {steps : List Step} {stages stages' : List Stage}
    (account : Account s steps stages s') (account' : Account t steps stages' t')
    (alike : Alike k (stages.flatMap (·.moments)) (stages'.flatMap (·.moments)) s t)
    (leaves : LeavesAlone k s) (leaves' : LeavesAlone k t) :
    stages'.map (·.seenOf k) = stages.map (·.seenOf k) := by
  refine account.lockstep
    (R := fun h h' s t => Alike k h h' s t ∧ LeavesAlone k s ∧ LeavesAlone k t) account' ?_
    (fun related => related.1.stats) ⟨alike, leaves, leaves'⟩
  rintro st h h' s s' t t' future future' - first first' ⟨alike, leaves, leaves'⟩
  obtain ⟨path, asked, -⟩ := first.single
  obtain ⟨path', asked', -⟩ := first'.single
  exact path.alike_of_leavesAlone path' (asked'.trans asked.symm) alike leaves leaves'

end Lockstep

end ScaleWatch.Session
