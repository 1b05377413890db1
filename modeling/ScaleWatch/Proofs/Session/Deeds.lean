import ScaleWatch.Proofs.Http.Operations
import ScaleWatch.Proofs.Monitor.Gates
import ScaleWatch.Proofs.Session.ReadyWork

/-!
# Deeds and moments

A step of a session is many things done one after the other: operations of the monitor, signals
taken, timers fired.  A `Deed` is one of them, and a `Moment` is a deed with the session in which it
was done.  A `Path` is what happened between two sessions, moment by moment, so that what came
before what, and at what time, can be said.  The work that the session does by itself may come
anywhere on a path; what is left without it is what was asked for from outside (`given`), and the
signals that it takes are what was printed (`printed`).
-/

namespace ScaleWatch.Session

inductive Deed where
  | operate (op : Monitor.Op)
  /-- The consumer takes a signal, and schedules the release of the gate of its key. -/
  | take (signal : Signal)
  | fire (t : Timer)
  | advance (milliseconds : Nat)
  /-- The consumer stops, and the stream is closed. -/
  | stop
  deriving DecidableEq

/-- The session does it by itself, as soon as it can. -/
def Deed.isWork : Deed → Bool
  | take _ | fire _ => true
  | operate _ | advance _ | stop => false

/-- The gate of the key is released from outside, or the key is unregistered. -/
def Deed.frees (k : Key) : Deed → Bool
  | operate op => op.frees k
  | take _ | fire _ | advance _ | stop => false

/-- The signals that are printed: the one that the consumer takes. -/
def Deed.printed : Deed → List Signal
  | take signal => [signal]
  | operate _ | fire _ | advance _ | stop => []

/-- A deed that can be done, and the session after it. -/
inductive Does : Session → Deed → Session → Prop where
  | operate {s : Session} (op : Monitor.Op) : Does s (.operate op) (s.operate op).2
  | take {s : Session} {signal : Signal} {channel : Channel} (running : s.isConsuming)
      (ready : s.monitor.channel.poll = (.ready signal, channel)) :
      Does s (.take signal) ({ s with monitor := { s.monitor with channel } }.schedule signal.key)
  | fire {s : Session} {t : Timer} (waiting : t ∈ s.timers) (due : t.due ≤ s.now) :
      Does s (.fire t) (fire t { s with timers := s.timers.erase t })
  | advance {s : Session} (milliseconds : Nat) :
      Does s (.advance milliseconds) { s with now := s.now + milliseconds }
  | stop {s : Session} : Does s .stop s.stop

structure Moment where
  /-- The session before the deed. -/
  session : Session
  deed : Deed

/-- What happened between two sessions, first thing first. -/
inductive Path : Session → List Moment → Session → Prop where
  | done (s : Session) : Path s [] s
  | next {s s' s'' : Session} {deed : Deed} {h : List Moment} (first : Does s deed s')
      (rest : Path s' h s'') : Path s (⟨s, deed⟩ :: h) s''

/-- What was asked for from outside. -/
def given (h : List Moment) : List Deed :=
  (h.map (·.deed)).filter (!·.isWork)

/-- What was printed. -/
def printed (h : List Moment) : List Signal :=
  h.flatMap (·.deed.printed)

/-! ### What is said of moments -/

namespace Moment

def time (m : Moment) : Nat :=
  m.session.now

/-- The key that fires, and the direction, if an evaluation answers with a signal. -/
def firing? (m : Moment) : Option (Key × Direction) :=
  match m.deed with
  | .operate op => m.session.monitor.firing? op
  | _ => none

/-- An evaluation of the key answers with a signal. -/
def Fires (k : Key) (m : Moment) : Prop :=
  ∃ d, m.firing? = some (k, d)

/-- The consumer takes a signal of the key. -/
def Takes (k : Key) (m : Moment) : Prop :=
  ∃ signal, m.deed = .take signal ∧ signal.key = k

def Frees (k : Key) (m : Moment) : Prop :=
  m.deed.frees k = true

/-- The stream is closed, or the slot that a signal of this moment would go to is full. -/
def Refuses (m : Moment) : Prop :=
  ∃ op, m.deed = .operate op ∧ m.session.monitor.channel.accepts op.worker = false

end Moment

theorem Moment.Fires.operates {k : Key} {m : Moment} (fires : m.Fires k) :
    ∃ op, m.deed = .operate op := by
  obtain ⟨d, firing⟩ := fires
  unfold Moment.firing? at firing
  split at firing
  · next op here => exact ⟨op, here⟩
  · cases firing

theorem Moment.Fires.not_frees {k k' : Key} {m : Moment} (fires : m.Fires k) : ¬m.Frees k' := by
  intro frees
  obtain ⟨op, here⟩ := fires.operates
  obtain ⟨d, firing⟩ := fires
  rw [Moment.firing?, here] at firing
  rw [Moment.Frees, here] at frees
  obtain ⟨t, b, count, judged, -⟩ := Monitor.judge_of_firing? firing
  rcases Monitor.effect_of_frees (m := m.session.monitor) frees with e | e
  · rw [e] at judged
    cases judged
  · rw [e] at judged
    cases judged

/-! ### Paths -/

section Paths

variable {s s' s'' : Session} {h h' : List Moment}

theorem given_append (h h' : List Moment) : given (h ++ h') = given h ++ given h' := by
  simp [given]

theorem given_cons_of_work {m : Moment} (work : m.deed.isWork = true) (h : List Moment) :
    given (m :: h) = given h := by
  simp [given, work]

theorem given_cons_of_not_work {m : Moment} (outside : m.deed.isWork = false) (h : List Moment) :
    given (m :: h) = m.deed :: given h := by
  simp [given, outside]

theorem given_cons (m : Moment) (h : List Moment) : given h ⊆ given (m :: h) := by
  by_cases work : m.deed.isWork = true
  · rw [given_cons_of_work work]
    exact List.Subset.refl _
  · rw [given_cons_of_not_work (by simpa using work)]
    exact List.subset_cons_self _ _

theorem printed_append (h h' : List Moment) : printed (h ++ h') = printed h ++ printed h' :=
  List.flatMap_append

theorem printed_cons (m : Moment) (h : List Moment) :
    printed (m :: h) = m.deed.printed ++ printed h :=
  List.flatMap_cons

theorem mem_given {m : Moment} (inside : m ∈ h) (outside : m.deed.isWork = false) :
    m.deed ∈ given h :=
  List.mem_filter.2 ⟨List.mem_map_of_mem inside, by simp [outside]⟩

theorem Path.single {deed : Deed} (does : Does s deed s') : Path s [⟨s, deed⟩] s' :=
  .next does (.done s')

theorem Path.append (path : Path s h s') (path' : Path s' h' s'') : Path s (h ++ h') s'' := by
  induction path with
  | done => exact path'
  | next first _ ih => exact .next first (ih path')

theorem Path.split (path : Path s (h ++ h') s'') : ∃ s', Path s h s' ∧ Path s' h' s'' := by
  induction h generalizing s with
  | nil => exact ⟨s, .done s, path⟩
  | cons m rest ih =>
    cases path with
    | next first path =>
      obtain ⟨s', before, after⟩ := ih path
      exact ⟨s', .next first before, after⟩

/-- A moment on a path is reached by the path before it, and its deed is done. -/
theorem Path.at {m : Moment} (path : Path s (h ++ m :: h') s'') :
    ∃ after, Path s h m.session ∧ Does m.session m.deed after ∧ Path after h' s'' := by
  obtain ⟨s', before, rest⟩ := path.split
  cases rest with
  | next first rest => exact ⟨_, before, first, rest⟩

/-- What every deed keeps, of the session and of all that happened until then, is kept by a
path. -/
theorem Path.invariant_from {P : List Moment → Session → Prop} {past : List Moment}
    (path : Path s h s')
    (kept : ∀ past s deed s', ⟨s, deed⟩ ∈ h → Does s deed s' → P past s →
      P (past ++ [⟨s, deed⟩]) s')
    (start : P past s) : P (past ++ h) s' := by
  induction path generalizing past with
  | done => simpa using start
  | @next s s' s'' deed rest first _ ih =>
    have after := kept past s deed s' List.mem_cons_self first start
    have later := ih (fun past s deed s' inside => kept past s deed s'
      (List.mem_cons_of_mem _ inside)) after
    simpa using later

theorem Path.invariant {P : List Moment → Session → Prop} (path : Path s h s')
    (kept : ∀ past s deed s', ⟨s, deed⟩ ∈ h → Does s deed s' → P past s →
      P (past ++ [⟨s, deed⟩]) s')
    (start : P [] s) : P h s' :=
  path.invariant_from kept start

end Paths

/-! ### The session's own work -/

section Work

variable {s s' : Session}

theorem Does.work {deed : Deed} (does : Does s deed s') (work : deed.isWork = true) :
    Work s s' := by
  cases does with
  | take running ready => exact .take running ready
  | fire waiting due => exact .fire waiting due
  | _ => cases work

theorem Work.does (work : Work s s') : ∃ deed, deed.isWork = true ∧ Does s deed s' := by
  cases work with
  | take running ready => exact ⟨_, rfl, .take running ready⟩
  | fire waiting due => exact ⟨_, rfl, .fire waiting due⟩

/-- What the session prints is what it takes out of the queue. -/
theorem Does.pending_of_work {deed : Deed} (does : Does s deed s') (work : deed.isWork = true) :
    s.monitor.channel.pending = deed.printed.length + s'.monitor.channel.pending := by
  cases does with
  | take running ready =>
    rw [monitor_schedule, Channel.pending_of_tryRecv (Channel.tryRecv_of_poll ready)]
    exact Nat.add_comm _ _
  | fire waiting due =>
    rw [channel_fire]
    exact (Nat.zero_add _).symm
  | _ => cases work

theorem path_of_work (work : Relation.ReflTransGen Work s s') :
    ∃ h, Path s h s' ∧ given h = [] ∧
      s.monitor.channel.pending = (printed h).length + s'.monitor.channel.pending := by
  induction work with
  | refl => exact ⟨[], .done s, rfl, (Nat.zero_add _).symm⟩
  | tail _ last ih =>
    obtain ⟨h, path, own, taken⟩ := ih
    obtain ⟨deed, isWork, does⟩ := last.does
    refine ⟨_, path.append (.single does), ?_, ?_⟩
    · rw [given_append, own, given_cons_of_work isWork]
      rfl
    · rw [taken, does.pending_of_work isWork, printed_append, printed_cons, List.length_append,
        List.length_append, Nat.add_assoc, Nat.add_assoc]
      exact congrArg _ (congrArg _ (Nat.zero_add _).symm)

/-- Work that takes nothing out of the queue prints nothing. -/
theorem path_of_silent_work (work : Relation.ReflTransGen Work s s')
    (silent : s'.monitor.channel = s.monitor.channel) :
    ∃ h, Path s h s' ∧ given h = [] ∧ printed h = [] := by
  obtain ⟨h, path, own, taken⟩ := path_of_work work
  refine ⟨h, path, own, List.length_eq_zero_iff.1 ?_⟩
  rw [silent] at taken
  omega

/-- Taking signals is a path on which they are printed in order. -/
theorem path_consumeUpTo (limit : Nat) (running : s.isConsuming) :
    ∃ h, Path s h (consumeUpTo limit s).2 ∧ given h = [] ∧ printed h = (consumeUpTo limit s).1 := by
  induction limit generalizing s with
  | zero => exact ⟨[], .done s, rfl, rfl⟩
  | succ limit ih =>
    rw [consumeUpTo_succ]
    rcases h : s.monitor.channel.tryRecv with _ | ⟨signal, channel⟩
    · exact ⟨[], .done s, rfl, rfl⟩
    · have ready : s.monitor.channel.poll = (.ready signal, channel) := by rw [Channel.poll_eq, h]
      obtain ⟨rest, path, own, same⟩ := ih (s :=
        { s with monitor := { s.monitor with channel } }.schedule signal.key)
        (by rwa [isConsuming_schedule])
      refine ⟨_, .next (.take running ready) path, ?_, ?_⟩
      · rw [given_cons_of_work rfl, own]
      · rw [printed_cons, same]
        rfl

/-- Settling is a path on which the signals are printed that it answers with. -/
theorem path_settle (s : Session) :
    ∃ h, Path s h s.settle.2 ∧ given h = [] ∧ printed h = s.settle.1 := by
  have taking : ∃ h, Path s h s.consume.2 ∧ given h = [] ∧ printed h = s.consume.1 := by
    unfold consume
    split
    · next running => exact path_consumeUpTo _ running
    · exact ⟨[], .done s, rfl, rfl⟩
  have spared : s.consume.2.fireDue.monitor.channel = s.consume.2.monitor.channel :=
    (foldl_fire _ _).2.2.1
  obtain ⟨h, path, own, same⟩ := taking
  obtain ⟨h', path', own', silent⟩ := path_of_silent_work (work_fireDue s.consume.2) spared
  refine ⟨h ++ h', path.append path', ?_, ?_⟩
  · rw [given_append, own, own', List.append_nil]
  · rw [printed_append, same, silent, List.append_nil]
    rfl

/-- Where no work is ready, what comes next was asked for. -/
theorem Path.of_settled {deed : Deed} {deeds : List Deed} {h : List Moment} (path : Path s h s')
    (settled : s.Settled) (same : given h = deed :: deeds) :
    ∃ after rest, h = ⟨s, deed⟩ :: rest ∧ Does s deed after ∧ Path after rest s' ∧
      given rest = deeds := by
  cases path with
  | done => cases same
  | @next _ after _ first rest does path =>
    have outside : first.isWork = false := by
      by_contra work
      exact settled _ (does.work (by simpa using work))
    rw [given_cons_of_not_work outside] at same
    cases same
    exact ⟨after, rest, rfl, does, path, rfl⟩

end Work

/-! ### Operations -/

theorem isSome_answerWithoutStream? (op : Monitor.Op) :
    (answerWithoutStream? op).isSome = op.isOnStream := by
  cases op <;> rfl

/-- Operations change the monitor alone. -/
theorem operate_eq (op : Monitor.Op) (s : Session) :
    ∃ monitor, (s.operate op).2 = { s with monitor } := by
  unfold operate
  split
  · exact ⟨s.monitor, rfl⟩
  · exact ⟨_, rfl⟩

theorem operate_eq_step {op : Monitor.Op} (direct : op.isOnStream = false) (s : Session) :
    s.operate op =
      ((s.monitor.step op).1, { s with monitor := (s.monitor.step op).2 }) := by
  have own : answerWithoutStream? op = none := by
    rw [← Option.not_isSome_iff_eq_none, isSome_answerWithoutStream?, direct]
    exact Bool.false_ne_true
  have none_else : (s.consumer.bind fun _ => answerWithoutStream? op) = none := by
    rw [own]
    cases s.consumer <;> rfl
  rw [operate, none_else]

theorem operate_of_direct {op : Monitor.Op} (direct : op.isOnStream = false) (s : Session) :
    (s.operate op).2 = { s with monitor := (s.monitor.step op).2 } := by
  rw [operate_eq_step direct]

theorem answer_of_direct {op : Monitor.Op} (direct : op.isOnStream = false) (s : Session) :
    (s.operate op).1 = (s.monitor.step op).1 := by
  rw [operate_eq_step direct]

/-- A consumer keeps the stream to itself. -/
theorem operate_of_onStream {op : Monitor.Op} (stream : op.isOnStream = true) {s : Session}
    {c : Consumer} (consumed : s.consumer = some c) : (s.operate op).2 = s := by
  rw [← isSome_answerWithoutStream?, Option.isSome_iff_exists] at stream
  obtain ⟨a, answer⟩ := stream
  rw [operate, consumed, Option.bind_some, answer]

theorem operateAll_of_direct {ops : List Monitor.Op} (direct : ∀ op ∈ ops, op.isOnStream = false)
    (s : Session) :
    (s.operateAll ops).2 = { s with monitor := (Monitor.run ops s.monitor).2 } := by
  induction ops generalizing s with
  | nil => rfl
  | cons op ops ih =>
    have first := operate_of_direct (direct op List.mem_cons_self) s
    have rest := ih (fun op inside => direct op (List.mem_cons_of_mem _ inside)) (s.operate op).2
    rw [operateAll, Monitor.run]
    refine rest.trans ?_
    rw [first]

theorem path_operateAll (ops : List Monitor.Op) (s : Session) :
    ∃ h, Path s h (s.operateAll ops).2 ∧ given h = ops.map Deed.operate ∧ printed h = [] := by
  induction ops generalizing s with
  | nil => exact ⟨[], .done s, rfl, rfl⟩
  | cons op ops ih =>
    obtain ⟨h, path, same, silent⟩ := ih (s.operate op).2
    refine ⟨_, .next (.operate op) path, ?_, ?_⟩
    · rw [given_cons_of_not_work rfl, same]
      rfl
    · rw [printed_cons, silent]
      rfl

theorem path_run {ops : List Monitor.Op} (direct : ∀ op ∈ ops, op.isOnStream = false)
    (s : Session) :
    ∃ h, Path s h { s with monitor := (Monitor.run ops s.monitor).2 } ∧
      given h = ops.map Deed.operate ∧ printed h = [] := by
  rw [← operateAll_of_direct direct]
  exact path_operateAll ops s

/-! ### What every deed keeps -/

section Kept

variable {s s' : Session} {h : List Moment}

theorem Does.now_le {deed : Deed} (does : Does s deed s') : s.now ≤ s'.now := by
  cases does with
  | operate op =>
    obtain ⟨monitor, same⟩ := operate_eq op s
    rw [same]
  | @take signal channel running ready =>
    rcases schedule_cases signal.key { s with monitor := { s.monitor with channel } } with
      same | ⟨delay, run, generations, consumer⟩
    · rw [same]
    · rw [schedule_of_delay consumer]
  | fire waiting due => rw [now_fire]
  | advance milliseconds => exact Nat.le_add_right _ _
  | stop =>
    rw [Session.stop]
    split <;> exact Nat.le_refl _

theorem Path.now_le (path : Path s h s') : s.now ≤ s'.now := by
  induction path with
  | done => exact Nat.le_refl _
  | next does _ ih => exact Nat.le_trans does.now_le ih

theorem Does.policy {deed : Deed} (does : Does s deed s') :
    s'.monitor.policy = s.monitor.policy := by
  cases does with
  | operate op =>
    unfold Session.operate
    split
    · rfl
    · exact (Monitor.leads_step op s.monitor).policy
  | take running ready => rw [monitor_schedule]
  | @fire t waiting due =>
    rcases fire_cases t { s with timers := s.timers.erase t } with same | ⟨c, consumed, newest⟩
    · rw [same]
    · rw [fire_of_newest consumed newest]
      exact (Monitor.leads_clearGate t.key s.monitor).policy
  | advance milliseconds => rfl
  | stop =>
    rw [Session.stop]
    split <;> rfl

end Kept

/-! ### Gates and the queue -/

section Gates

variable {s : Session} {c : Consumer} {op : Monitor.Op} {k : Key}

theorem not_frees_of_isOnStream (stream : op.isOnStream = true) : op.frees k = false := by
  cases op <;> first | rfl | cases stream

theorem firing?_of_isOnStream (stream : op.isOnStream = true) (m : Monitor) :
    m.firing? op = none := by
  cases op <;> first | rfl | cases stream

theorem direct_of_firing {m : Monitor} {d : Direction} (h : m.firing? op = some (k, d)) :
    op.isOnStream = false := by
  by_contra stream
  rw [firing?_of_isOnStream (by simpa using stream)] at h
  cases h

theorem holds_of_fires (latched : s.monitor.policy = .latched)
    (fires : Moment.Fires k ⟨s, .operate op⟩) : (s.operate op).2.monitor.Holds k := by
  obtain ⟨d, firing⟩ := fires
  rw [operate_of_direct (direct_of_firing firing)]
  exact Monitor.holds_of_firing latched firing

theorem holds_operate (consumed : s.consumer = some c) (held : s.monitor.Holds k)
    (kept : op.frees k = false) : (s.operate op).2.monitor.Holds k := by
  by_cases stream : op.isOnStream = true
  · rw [operate_of_onStream stream consumed]
    exact held
  · rw [operate_of_direct (by simpa using stream)]
    exact Monitor.holds_step held kept

/-- After an operation a gate is held because its key has just fired, or because it was held. -/
theorem holds_of_operate (consumed : s.consumer = some c)
    (held : (s.operate op).2.monitor.Holds k) :
    Moment.Fires k ⟨s, .operate op⟩ ∨ s.monitor.Holds k ∧ op.frees k = false := by
  by_cases stream : op.isOnStream = true
  · rw [operate_of_onStream stream consumed] at held
    exact .inr ⟨held, not_frees_of_isOnStream stream⟩
  · rw [operate_of_direct (by simpa using stream)] at held
    exact Monitor.holds_of_step held

/-- A key that fires sends a signal, which is queued unless it is refused. -/
theorem queued_of_fires {d : Direction} (h : s.monitor.firing? op = some (k, d)) :
    ∃ n, (s.operate op).2.monitor.channel.queued.Perm
      (if s.monitor.channel.accepts op.worker then
        ⟨k, d, some n⟩ :: s.monitor.channel.queued else s.monitor.channel.queued) := by
  obtain ⟨n, sent⟩ := Monitor.channel_of_firing h
  refine ⟨n, ?_⟩
  rw [operate_of_direct (direct_of_firing h)]
  simp only [sent]
  by_cases accepts : s.monitor.channel.accepts op.worker = true
  · rw [if_pos accepts]
    exact (Channel.emit_of_accepts _ _ _ accepts).2.2
  · rw [if_neg accepts, Channel.emit_of_refuses _ _ _ (by simpa using accepts)]

theorem channel_of_not_fires (consumed : s.consumer = some c)
    (h : s.monitor.firing? op = none) :
    (s.operate op).2.monitor.channel = s.monitor.channel := by
  by_cases stream : op.isOnStream = true
  · rw [operate_of_onStream stream consumed]
  · have direct : op.isOnStream = false := by simpa using stream
    rw [operate_of_direct direct]
    exact Monitor.channel_of_not_firing direct h

/-- No operation takes a signal from the consumer. -/
theorem queued_operate (consumed : s.consumer = some c) (op : Monitor.Op) :
    s.monitor.channel.queued ⊆ (s.operate op).2.monitor.channel.queued := by
  intro x inside
  rcases h : s.monitor.firing? op with _ | ⟨k, d⟩
  · rw [channel_of_not_fires consumed h]
    exact inside
  · obtain ⟨n, queued⟩ := queued_of_fires h
    rw [queued.mem_iff]
    split
    · exact List.mem_cons_of_mem _ inside
    · exact inside

/-- A signal that is queued after an operation was queued before, or its key has just fired. -/
theorem mem_queued_operate (consumed : s.consumer = some c) {x : Signal}
    (inside : x ∈ (s.operate op).2.monitor.channel.queued) :
    x ∈ s.monitor.channel.queued ∨ s.monitor.firing? op = some (x.key, x.direction) := by
  rcases h : s.monitor.firing? op with _ | ⟨k, d⟩
  · rw [channel_of_not_fires consumed h] at inside
    exact .inl inside
  · obtain ⟨n, queued⟩ := queued_of_fires h
    rw [queued.mem_iff] at inside
    split at inside
    · rcases List.mem_cons.1 inside with rfl | old
      · exact .inr rfl
      · exact .inl old
    · exact .inl inside

theorem holds_fire {t : Timer} (held : s.monitor.Holds k)
    (stale : t.key = k → ∀ c, s.consumer = some c → c.generations k ≠ some t.generation) :
    (fire t s).monitor.Holds k := by
  rcases fire_cases t s with same | ⟨c, consumed, newest⟩
  · rw [same]
    exact held
  · have other : ¬t.key = k := by
      rintro rfl
      exact stale rfl c consumed newest
    have kept : Monitor.Op.frees k (.clearGate t.key) = false := decide_eq_false other
    rw [fire_of_newest consumed newest]
    exact Monitor.holds_step held kept

/-- Firing a timer takes no gate, and releases that of a key whose newest timer it is. -/
theorem holds_of_fire {t : Timer} (held : (fire t s).monitor.Holds k) :
    s.monitor.Holds k ∧
      (t.key = k → ∀ c, s.consumer = some c → c.generations k ≠ some t.generation) := by
  rcases consumed : s.consumer with _ | c
  · have same : fire t s = s := by rw [fire, consumed]
    rw [same] at held
    exact ⟨held, fun _ c impossible => by cases impossible⟩
  by_cases newest : c.generations t.key = some t.generation
  · rw [fire_of_newest consumed newest] at held
    have released : (s.monitor.step (.clearGate t.key)).2.Holds k := held
    rcases Monitor.holds_of_step released with ⟨d, firing⟩ | ⟨before, kept⟩
    · obtain ⟨_, _, _, judged, -⟩ := Monitor.judge_of_firing? firing
      cases judged
    · exact ⟨before, fun here => absurd here (of_decide_eq_false kept)⟩
  · rw [fire_of_stale consumed newest] at held
    refine ⟨held, ?_⟩
    rintro rfl c' same
    cases same
    exact newest

end Gates

end ScaleWatch.Session
