import ScaleWatch.Proofs.Monitor.Accounting
import ScaleWatch.Proofs.Monitor.Gates

/-!
# What becomes of signals makes no difference

A signal that fires is accepted by its slot or dropped, and one that is accepted is received sooner
or later, or never.  Keys and thresholds know nothing of this.  `offStream_alike` compares two runs
of the same operations, in which the slots are of other sizes, the operations come from other
workers, and the stream is read and closed at other times: all answers are the same, the keys are in
the same state after every operation, and the counters differ only in how many signals were emitted
and how many dropped.

What carries the proof is `silenced`, which takes a monitor to one that nobody listens to.  Whatever
a monitor does off the stream, the silenced one does, too (`step_silenced`), so that both runs can
be compared with one and the same.
-/

namespace ScaleWatch

/-! ### Counters of a monitor that nobody listens to -/

/-- Whatever was emitted was dropped. -/
def Metrics.silenced (m : Metrics) : Metrics :=
  { m with signalsEmitted := 0, signalsDropped := m.signalsEmitted + m.signalsDropped }

def Counter.silenced : Counter → Counter
  | emitted => dropped
  | c => c

theorem Metrics.silenced_post (m : Metrics) (c : Counter) :
    (m.post c).silenced = m.silenced.post c.silenced := by
  cases c with
  | emitted =>
    have moved : m.signalsEmitted + 1 + m.signalsDropped =
        m.signalsEmitted + m.signalsDropped + 1 := by
      rw [UInt64.add_assoc, UInt64.add_comm 1, UInt64.add_assoc]
    simp [Metrics.silenced, Metrics.post, Metrics.countSignal, Counter.silenced, moved]
  | dropped =>
    simp [Metrics.silenced, Metrics.post, Metrics.countSignal, Counter.silenced, UInt64.add_assoc]
  | _ => rfl

theorem Metrics.silenced_foldl_post (posted : List Counter) (m : Metrics) :
    (posted.foldl post m).silenced = (posted.map Counter.silenced).foldl post m.silenced := by
  induction posted generalizing m with
  | nil => rfl
  | cons c rest ih => rw [List.foldl_cons, ih, silenced_post, List.map_cons, List.foldl_cons]

theorem Metrics.value_silenced {c : Counter} (other : c.isOfSignals = false) (m : Metrics) :
    m.silenced.value c = m.value c := by
  cases c <;> first | rfl | cases other

namespace Monitor

/-- The same operation from another worker. -/
def Op.by (worker : Nat) : Op → Op
  | evaluate _ k b count => .evaluate worker k b count
  | transition _ k t => .transition worker k t
  | observe _ o => .observe worker o
  | op => op

/-- The operations that are none on the stream, whoever they come from. -/
def offStream (ops : List Op) : List Op :=
  (ops.filter (!·.isOnStream)).map (·.by 0)

/-- The answers to the operations that are none on the stream, each with the monitor after it. -/
def observedOffStream : List Op → Monitor → List (Answer × Monitor)
  | [], _ => []
  | op :: ops, m =>
    if op.isOnStream then observedOffStream ops (m.step op).2
    else m.step op :: observedOffStream ops (m.step op).2

/-- The monitors differ at most in the channel, and in how many of their signals were dropped. -/
structure SameButDelivery (m m' : Monitor) : Prop where
  registry : m'.registry = m.registry
  thresholds : m'.thresholds = m.thresholds
  policy : m'.policy = m.policy
  counters : ∀ c : Counter, c.isOfSignals = false → m'.metrics.value c = m.metrics.value c
  signals : m'.metrics.signalsEmitted + m'.metrics.signalsDropped =
    m.metrics.signalsEmitted + m.metrics.signalsDropped

/-- The monitor as it would be if the stream had been closed from the beginning. -/
def silenced (m : Monitor) : Monitor :=
  { m with channel := (Channel.new 1 1).dropStream, metrics := m.metrics.silenced }

theorem sameButDelivery_of_silenced {m m' : Monitor} (h : m'.silenced = m.silenced) :
    SameButDelivery m m' := by
  have metrics : m'.metrics.silenced = m.metrics.silenced := congrArg Monitor.metrics h
  refine ⟨congrArg (·.registry) h, congrArg (·.thresholds) h, congrArg (·.policy) h, ?_,
    congrArg Metrics.signalsDropped metrics⟩
  intro c other
  rw [← Metrics.value_silenced other, metrics, Metrics.value_silenced other]

/-! ### The worker of an operation -/

section Worker

variable (op : Op) (worker : Nat) (m : Monitor)

theorem isOnStream_by : (op.by worker).isOnStream = op.isOnStream := by
  cases op <;> rfl

/-- It makes no difference to the answer who an operation comes from. -/
theorem answer_by : (m.step (op.by worker)).1 = (m.step op).1 := by
  have transition : ∀ worker' k t,
      (m.transition worker k t).1 = (m.transition worker' k t).1 := by
    intro worker' k t
    rw [fst_transition, fst_transition]
  cases op with
  | evaluate worker' k b count =>
    have judged := (evaluate_eq worker k b count m).1.trans (evaluate_eq worker' k b count m).1.symm
    exact congrArg Answer.signal judged
  | transition worker' k t => exact congrArg Answer.signal (transition worker' k t)
  | observe worker' o =>
    simp only [Op.by, step, observe]
    rcases o.transition? with _ | ⟨k, t⟩
    · rfl
    · exact congrArg Answer.signal (transition worker' k t)
  | _ => rfl

/-- Nor to what becomes of keys and places. -/
theorem effect_by :
    (∀ k p, (m.effect (op.by worker)).on m.policy k p = (m.effect op).on m.policy k p) ∧
      (m.effect (op.by worker)).onReserved m = (m.effect op).onReserved m := by
  have transition : ∀ worker' k t,
      (∀ k' p, (m.effectOfTransition worker k t).on m.policy k' p =
        (m.effectOfTransition worker' k t).on m.policy k' p) ∧
      (m.effectOfTransition worker k t).onReserved m =
        (m.effectOfTransition worker' k t).onReserved m := by
    intro worker' k t
    unfold effectOfTransition
    split <;> exact ⟨fun _ _ => rfl, rfl⟩
  cases op with
  | transition worker' k t => exact transition worker' k t
  | observe worker' o =>
    simp only [Op.by, effect]
    rcases o.transition? with _ | ⟨k, t⟩
    · exact ⟨fun _ _ => rfl, rfl⟩
    · exact transition worker' k t
  | _ => exact ⟨fun _ _ => rfl, rfl⟩

theorem onThresholds_by (s : Bounds.Slots) :
    (op.by worker).onThresholds s = op.onThresholds s := by
  cases op <;> rfl

theorem registry_by : (m.step (op.by worker)).2.registry = (m.step op).2.registry := by
  obtain ⟨on, reserved⟩ := effect_by op worker m
  have numbers := numbers_step (op.by worker) m
  have numbers' := numbers_step op m
  refine Registry.ext_find? (numbers.1.trans numbers'.1.symm) ?_ fun k => ?_
  · rw [numbers.2, numbers'.2, reserved]
  · rw [(leads_step (op.by worker) m).find, (leads_step op m).find, on]

end Worker

/-! ### One step -/

section Step

variable {op : Op} {m m' : Monitor}

theorem exists_concerns (direct : op.isOnStream = false) : ∃ k, op.concerns k = true := by
  refine ⟨op.key?.getD (.port 0), ?_⟩
  rw [Op.concerns, direct]
  cases op.key? <;> simp

/-- What an operation answers, and what it does to the keys, hangs on the keys, the thresholds and
the policy only. -/
theorem step_of_same (direct : op.isOnStream = false) (registry : m'.registry = m.registry)
    (thresholds : m'.thresholds = m.thresholds) (policy : m'.policy = m.policy) :
    (m'.step op).1 = (m.step op).1 ∧ (m'.step op).2.registry = (m.step op).2.registry := by
  obtain ⟨k, concerns⟩ := exists_concerns direct
  have same : SameTo k m m' := ⟨by rw [registry], thresholds, policy⟩
  obtain ⟨answer, effect⟩ := same.step_eq concerns <| by
    rintro rfl
    rw [answer_register, answer_register, registry]
  have numbers := numbers_step op m
  have numbers' := numbers_step op m'
  have reserved : (m.effect op).onReserved m' = (m.effect op).onReserved m := by
    cases m.effect op <;> simp only [Effect.onReserved, registry]
  refine ⟨answer, Registry.ext_find? ?_ ?_ fun k' => ?_⟩
  · rw [numbers'.1, numbers.1, registry]
  · rw [numbers'.2, numbers.2, effect, reserved]
  · rw [(leads_step op m').find, (leads_step op m).find, effect, policy, registry]

/-- A silenced monitor fires the same signals, and drops them. -/
theorem postings_silenced (op : Op) (m : Monitor) :
    m.silenced.postings (op.by 0) = (m.postings op).map Counter.silenced := by
  have signal : ∀ worker fired,
      m.silenced.postingOfSignal 0 fired =
        (m.postingOfSignal worker fired).map Counter.silenced := by
    intro worker fired
    rcases fired with _ | d
    · rfl
    · simp only [postingOfSignal, List.map_cons, List.map_nil]
      cases m.channel.accepts worker <;> rfl
  have transition : ∀ worker k t,
      m.silenced.postingsOfTransition 0 k t =
        (m.postingsOfTransition worker k t).map Counter.silenced := by
    intro worker k t
    simp only [postingsOfTransition, silenced]
    rcases m.registry.find? k with _ | p
    · rfl
    rcases m.thresholds.active? with _ | b
    · rfl
    exact congrArg (Counter.processed :: ·) (signal worker _)
  cases op with
  | register k =>
    simp only [Op.by, postings, apply_ite (List.map Counter.silenced)]
    rfl
  | evaluate worker k b count => exact signal worker _
  | transition worker k t => exact transition worker k t
  | observe worker o =>
    simp only [Op.by, postings]
    rcases o.transition? with _ | ⟨k, t⟩
    · rfl
    · exact transition worker k t
  | _ => rfl

/-- Whatever a monitor does off the stream, the silenced one does, too. -/
theorem step_silenced (direct : op.isOnStream = false) (m : Monitor) :
    m.silenced.step (op.by 0) = ((m.step op).1, (m.step op).2.silenced) := by
  have quiet : (op.by 0).isOnStream = false := (isOnStream_by op 0).trans direct
  -- part by part: only the channel and the two counters are not as they would be anyway
  have same : m.silenced.registry = m.registry := rfl
  obtain ⟨answer, registry⟩ := step_of_same quiet same rfl rfl
  have channel := channel_of_closed (m := m.silenced) quiet rfl
  have policy := (leads_step (op.by 0) m.silenced).policy
  have thresholds := thresholds_step (op.by 0) m.silenced
  have metrics := metrics_step (op.by 0) m.silenced
  rw [onThresholds_by] at thresholds
  rw [postings_silenced] at metrics
  refine Prod.ext (answer.trans (answer_by op 0 m)) ?_
  replace registry := registry.trans (registry_by op 0 m)
  generalize (m.silenced.step (op.by 0)).2 = after at *
  cases after
  simp only at registry channel policy thresholds metrics
  simp only [silenced, registry, channel, policy, thresholds, metrics, thresholds_step,
    metrics_step, Metrics.silenced_foldl_post, (leads_step op m).policy]

theorem silenced_receive (m : Monitor) (f : Channel → Answer × Channel) :
    (m.receive f).2.silenced = m.silenced := by
  unfold receive
  split <;> rfl

theorem silenced_step_of_isOnStream (stream : op.isOnStream = true) (m : Monitor) :
    (m.step op).2.silenced = m.silenced := by
  cases op with
  | tryRecv => exact silenced_receive m _
  | poll => exact silenced_receive m _
  | drain => exact silenced_receive m _
  | dropStream => rfl
  | _ => cases stream

end Step

/-! ### Whole runs -/

theorem offStream_cons (op : Op) (ops : List Op) :
    offStream (op :: ops) =
      if op.isOnStream then offStream ops else op.by 0 :: offStream ops := by
  cases stream : op.isOnStream <;> simp [offStream, stream]

/-- A run off the stream is a run of the silenced monitor. -/
theorem observed_silenced (ops : List Op) (m : Monitor) :
    (observedOffStream ops m).map (fun x => (x.1, x.2.silenced)) =
        observedOffStream (offStream ops) m.silenced ∧
      (run ops m).2.silenced = (run (offStream ops) m.silenced).2 := by
  induction ops generalizing m with
  | nil => exact ⟨rfl, rfl⟩
  | cons op ops ih =>
    obtain ⟨observed, last⟩ := ih (m.step op).2
    rw [observedOffStream, offStream_cons]
    by_cases stream : op.isOnStream = true
    · rw [if_pos stream, if_pos stream, ← silenced_step_of_isOnStream stream m]
      exact ⟨observed, last⟩
    · have direct : op.isOnStream = false := by simpa using stream
      have quiet : ¬(op.by 0).isOnStream = true := by rw [isOnStream_by]; exact stream
      rw [if_neg stream, if_neg stream, List.map_cons, observed, observedOffStream, if_neg quiet,
        step_silenced direct]
      refine ⟨rfl, last.trans ?_⟩
      rw [run, step_silenced direct]

/-- Two runs of the same operations, however large the slots are, whoever the operations come from,
and whatever is done to the stream: all answers are the same, and after every operation the
monitors differ in nothing but the delivery of signals. -/
theorem offStream_alike (s s' : Settings) (ops ops' : List Op) (policy : s'.policy = s.policy)
    (maxKeys : s'.maxKeys = s.maxKeys) (same : offStream ops' = offStream ops) :
    List.Forall₂ (fun x x' => x'.1 = x.1 ∧ SameButDelivery x.2 x'.2)
        (observedOffStream ops (.new s)) (observedOffStream ops' (.new s')) ∧
      SameButDelivery (run ops (.new s)).2 (run ops' (.new s')).2 := by
  have start : silenced (.new s') = silenced (.new s) := by
    simp only [silenced, new, policy, maxKeys]
  obtain ⟨observed, last⟩ := observed_silenced ops (.new s)
  obtain ⟨observed', last'⟩ := observed_silenced ops' (.new s')
  rw [start, same] at observed' last'
  have traces := observed.trans observed'.symm
  refine ⟨?_, sameButDelivery_of_silenced (last'.trans last.symm)⟩
  rw [← List.forall₂_eq_eq_eq, List.forall₂_map_left_iff, List.forall₂_map_right_iff] at traces
  refine traces.imp fun x x' equal => ?_
  obtain ⟨answer, state⟩ := Prod.mk.inj equal
  exact ⟨answer.symm, sameButDelivery_of_silenced state.symm⟩

/-- Two keys fire from one worker, with room for one signal, and the stream is closed too late. -/
def unreceived : List Op :=
  [.store ⟨2, 10, 1⟩, .register (.port 1), .register (.port 2), .transition 0 (.port 1) .closed,
    .transition 0 (.port 2) .closed, .dropStream, .clearGate (.port 1),
    .evaluate 0 (.port 1) ⟨2, 10, 1⟩ 11, .stats (.port 2)]

/-- The same operations from two workers, with every signal received. -/
def received : List Op :=
  [.store ⟨2, 10, 1⟩, .register (.port 1), .register (.port 2), .transition 3 (.port 1) .closed,
    .tryRecv, .transition 4 (.port 2) .closed, .clearGate (.port 1), .poll,
    .evaluate 3 (.port 1) ⟨2, 10, 1⟩ 11, .stats (.port 2), .drain]

/-- Two of three signals are dropped, or none, and nothing else shows it. -/
theorem offStream_alike_unreceived :
    offStream received = offStream unreceived ∧
      (List.Forall₂ (fun x x' => x'.1 = x.1 ∧ SameButDelivery x.2 x'.2)
          (observedOffStream unreceived (.new ⟨.latched, 16, 1, 1⟩))
          (observedOffStream received (.new ⟨.latched, 16, 2, 8⟩)) ∧
        SameButDelivery (run unreceived (.new ⟨.latched, 16, 1, 1⟩)).2
          (run received (.new ⟨.latched, 16, 2, 8⟩)).2) ∧
      (run unreceived (.new ⟨.latched, 16, 1, 1⟩)).2.metrics = ⟨2, 0, 0, 0, 1, 2, 0⟩ ∧
      (run received (.new ⟨.latched, 16, 2, 8⟩)).2.metrics = ⟨2, 0, 0, 0, 3, 0, 0⟩ := by
  have same : offStream received = offStream unreceived := by decide +kernel
  exact ⟨same, offStream_alike ⟨.latched, 16, 1, 1⟩ ⟨.latched, 16, 2, 8⟩ unreceived received rfl rfl
    same, by decide +kernel, by decide +kernel⟩

end Monitor

end ScaleWatch
