import ScaleWatch.Monitor
import ScaleWatch.Proofs.Channel.Front
import ScaleWatch.Proofs.Registry.Lookup

/-!
# What an operation comes to

The operations of a monitor are many, and what they do to keys and signals is little: a key is
watched, forgotten, released, moved or judged, signals are taken, or the stream is closed.
`Monitor.effect` is this normal form of an operation.  What becomes of the pressure on every key
and of the channel (`leads_step`) and what signals come out (`signals_step`) is a matter of the
effect alone, so that theorems about runs have no operations to tell apart.
-/

namespace ScaleWatch.Monitor

inductive Effect where
  /-- Neither keys nor queued signals change. -/
  | idle
  | watch (k : Key)
  | forget (k : Key)
  | release (k : Key)
  | move (k : Key) (t : Transition)
  /-- A count of a key is judged, after a transition or not, and a signal that fires is sent. -/
  | judge (worker : Nat) (k : Key) (t : Option Transition) (b : Bounds) (count : UInt32)
  /-- Signals are taken until none is ready, at most `limit`. -/
  | take (limit : Nat)
  | close

/-- The effect of a transition that is handled from end to end. -/
def effectOfTransition (worker : Nat) (k : Key) (t : Transition) (m : Monitor) : Effect :=
  match m.registry.find? k, m.thresholds.active? with
  | some p, some b => .judge worker k (some t) b (p.apply t).count
  | _, _ => .idle

def effect (op : Op) (m : Monitor) : Effect :=
  match op with
  | .store _ | .writeSlot _ _ | .stats _ => .idle
  | .register k =>
    if m.registry.contains k ∨ m.registry.capacity ≤ m.registry.reserved then .idle else .watch k
  | .unregister k => .forget k
  | .clearGate k => .release k
  | .apply k t => .move k t
  | .evaluate worker k b count => .judge worker k none b count
  | .transition worker k t => m.effectOfTransition worker k t
  | .observe worker o =>
    match o.transition? with
    | some (k, t) => m.effectOfTransition worker k t
    | none => .idle
  | .tryRecv | .poll => if m.channel.streamOpen then .take 1 else .idle
  | .drain => if m.channel.streamOpen then .take m.channel.pending else .idle
  | .dropStream => .close

/-- The pressure after a transition, if there is one. -/
def moved (t : Option Transition) (p : Pressure) : Pressure :=
  t.elim p p.apply

/-- What becomes of the pressure on a key, if the key is watched. -/
def Effect.on (policy : GatePolicy) (k : Key) : Effect → Option Pressure → Option Pressure
  | watch k', p => if k = k' then some .zero else p
  | forget k', p => if k = k' then none else p
  | release k', p => if k = k' then p.map fun p => p.clearGate.2 else p
  | move k' t, p => if k = k' then p.map (·.apply t) else p
  | judge _ k' t b count, p =>
    if k = k' then p.map fun p => ((moved t p).evaluate policy b count).2 else p
  | idle, p | take _, p | close, p => p

/-- What a judgement of a key fires. -/
def fired (k : Key) (t : Option Transition) (b : Bounds) (count : UInt32) (m : Monitor) :
    Option Direction :=
  (m.registry.find? k).bind fun p => ((moved t p).evaluate m.policy b count).1

/-- What becomes of the channel. -/
def Effect.onChannel (m : Monitor) : Effect → Channel
  | judge worker k t b count =>
    match m.fired k t b count with
    | some d => (m.channel.emit worker ⟨k, d, some b.bufferLength⟩).2
    | none => m.channel
  | take limit => (Channel.drainUpTo limit m.channel).2
  | close => m.channel.dropStream
  | idle | watch _ | forget _ | release _ | move _ _ => m.channel

/-- The signals that come out. -/
def Effect.taken (m : Monitor) : Effect → List Signal
  | take limit => (Channel.drainUpTo limit m.channel).1
  | _ => []

/-- The signals in an answer. -/
def Answer.signals : Answer → List Signal
  | .received s => s.toList
  | .polled (.ready s) => [s]
  | .drained signals => signals
  | _ => []

/-- An effect leads from one monitor to another. -/
structure Effect.Leads (e : Effect) (m after : Monitor) : Prop where
  find : ∀ k, after.registry.find? k = e.on m.policy k (m.registry.find? k)
  channel : after.channel = e.onChannel m
  policy : after.policy = m.policy

/-! ### Each operation -/

theorem leads_idle {m after : Monitor} (registry : after.registry = m.registry)
    (channel : after.channel = m.channel) (policy : after.policy = m.policy) :
    Effect.idle.Leads m after :=
  ⟨fun k => by rw [registry]; rfl, channel, policy⟩

theorem leads_afterWrite {m : Monitor} {result : Except Fault Monitor}
    (written : ∀ after, result = .ok after → ∃ thresholds, after = { m with thresholds }) :
    Effect.idle.Leads m (m.afterWrite result).2 := by
  cases h : result with
  | ok after =>
    obtain ⟨thresholds, rfl⟩ := written after h
    exact leads_idle rfl rfl rfl
  | error fault => exact leads_idle rfl rfl rfl

theorem leads_register (k : Key) (m : Monitor) :
    (m.effect (.register k)).Leads m (m.register k).2 := by
  unfold register effect Registry.register
  by_cases watched : m.registry.contains k = true
  · simp only [watched, true_or, if_true]
    exact leads_idle rfl rfl rfl
  · by_cases room : m.registry.reserved < m.registry.capacity
    · simp only [watched, room, Nat.not_le.2 room, Bool.false_eq_true, or_self, if_false, if_true]
      exact ⟨fun k' => Registry.lookup_place k k' .zero m.registry.entries, rfl, rfl⟩
    · simp only [watched, room, Nat.not_lt.1 room, or_true, Bool.false_eq_true, if_false, if_true]
      exact leads_idle rfl rfl rfl

theorem leads_unregister (k : Key) (m : Monitor) :
    (Effect.forget k).Leads m (m.unregister k).2 :=
  ⟨fun k' => Registry.find?_unregister k k' m.registry, rfl, rfl⟩

theorem clearGate_eq_elim (k : Key) (m : Monitor) :
    (m.clearGate k).2 =
      { m with registry := (m.registry.update k Pressure.clearGate).elim m.registry (·.2) } := by
  unfold clearGate Registry.clearGate
  rcases m.registry.update k Pressure.clearGate with _ | ⟨held, registry⟩ <;> rfl

theorem leads_clearGate (k : Key) (m : Monitor) :
    (Effect.release k).Leads m (m.clearGate k).2 := by
  rw [clearGate_eq_elim]
  exact ⟨fun k' => Registry.find?_elim_update k k' _ m.registry, rfl, rfl⟩

theorem apply_eq_elim (k : Key) (t : Transition) (m : Monitor) :
    (m.apply k t).2 = { m with registry :=
      (m.registry.update k fun p => ((p.apply t).count, p.apply t)).elim m.registry (·.2) } := by
  unfold apply
  rcases m.registry.update k _ with _ | ⟨count, registry⟩ <;> rfl

theorem leads_apply (k : Key) (t : Transition) (m : Monitor) (metrics : Metrics) :
    (Effect.move k t).Leads m { (m.apply k t).2 with metrics } := by
  rw [apply_eq_elim]
  exact ⟨fun k' => Registry.find?_elim_update k k' _ m.registry, rfl, rfl⟩

/-- A judgement answers with what it fires, and sends it. -/
theorem evaluate_eq (worker : Nat) (k : Key) (b : Bounds) (count : UInt32) (m : Monitor) :
    (m.evaluate worker k b count).1 = m.fired k none b count ∧
      (m.evaluate worker k b count).2.registry =
        (m.registry.update k (Pressure.evaluate m.policy b count)).elim m.registry (·.2) ∧
      (m.evaluate worker k b count).2.channel = (Effect.judge worker k none b count).onChannel m ∧
      (m.evaluate worker k b count).2.policy = m.policy := by
  unfold evaluate
  simp only [Effect.onChannel]
  rcases h : m.registry.update k (Pressure.evaluate m.policy b count) with _ | ⟨fired, registry⟩
  · have none_fired : m.fired k none b count = none := by
      rw [fired, Registry.update_eq_none_iff.1 h, Option.bind_none]
    rw [none_fired]
    exact ⟨rfl, rfl, rfl, rfl⟩
  · obtain ⟨p, watched, same⟩ := Registry.answer_of_update h
    have fired_eq : m.fired k none b count = fired := by
      rw [Monitor.fired, watched, Option.bind_some, same]
      rfl
    rw [fired_eq]
    cases fired <;> exact ⟨rfl, rfl, rfl, rfl⟩

theorem leads_evaluate (worker : Nat) (k : Key) (b : Bounds) (count : UInt32) (m : Monitor) :
    (Effect.judge worker k none b count).Leads m (m.evaluate worker k b count).2 := by
  obtain ⟨-, registry, channel, policy⟩ := evaluate_eq worker k b count m
  refine ⟨fun k' => ?_, channel, policy⟩
  rw [registry]
  exact Registry.find?_elim_update k k' _ m.registry

/-- Handling a transition is moving the count and judging what it has become. -/
theorem transition_of_watched {k : Key} {m : Monitor} {p : Pressure} {b : Bounds}
    (watched : m.registry.find? k = some p) (active : m.thresholds.active? = some b) (worker : Nat)
    (t : Transition) :
    m.transition worker k t =
      { (m.apply k t).2 with metrics := m.metrics.countProcessed }.evaluate worker k b
        (p.apply t).count := by
  have contains : m.registry.contains k = true := Registry.contains_iff.2 ⟨p, watched⟩
  unfold transition apply Registry.update
  rw [if_pos contains, active, watched]
  rfl

theorem transition_of_idle {k : Key} {m : Monitor}
    (idle : m.registry.find? k = none ∨ m.thresholds.active? = none) (worker : Nat)
    (t : Transition) :
    ∃ metrics, m.transition worker k t = (none, { m with metrics }) := by
  unfold transition
  by_cases contains : m.registry.contains k = true
  · obtain ⟨p, watched⟩ := Registry.contains_iff.1 contains
    rw [watched] at idle
    rw [if_pos contains, idle.resolve_left (by simp)]
    exact ⟨_, rfl⟩
  · rw [if_neg contains]
    exact ⟨_, rfl⟩

theorem Effect.Leads.fired_of_move {k : Key} {t : Transition} {m after : Monitor}
    (first : (Effect.move k t).Leads m after) (b : Bounds) (count : UInt32) :
    after.fired k none b count = m.fired k (some t) b count := by
  unfold fired
  rw [first.find, first.policy]
  cases m.registry.find? k <;> simp [Effect.on, Monitor.moved]

/-- To judge after a transition was applied is to judge with the transition. -/
theorem Effect.Leads.judge_of_move {k : Key} {t : Transition} {m moved after : Monitor}
    {worker : Nat} {b : Bounds} {count : UInt32} (first : (Effect.move k t).Leads m moved)
    (second : (Effect.judge worker k none b count).Leads moved after) :
    (Effect.judge worker k (some t) b count).Leads m after := by
  have fired_eq := first.fired_of_move b count
  refine ⟨fun k' => ?_, ?_, second.policy.trans first.policy⟩
  · rw [second.find, first.find, first.policy]
    by_cases same : k' = k
    · cases m.registry.find? k' <;> simp [Effect.on, Monitor.moved, same]
    · simp [Effect.on, same]
  · rw [second.channel]
    simp only [Effect.onChannel]
    rw [fired_eq, first.channel]
    rfl

theorem leads_transition (worker : Nat) (k : Key) (t : Transition) (m : Monitor) :
    (m.effectOfTransition worker k t).Leads m (m.transition worker k t).2 := by
  unfold effectOfTransition
  rcases watched : m.registry.find? k with _ | p
  · obtain ⟨metrics, same⟩ := transition_of_idle (.inl watched) worker t
    rw [same]
    exact leads_idle rfl rfl rfl
  rcases active : m.thresholds.active? with _ | b
  · obtain ⟨metrics, same⟩ := transition_of_idle (.inr active) worker t
    rw [same]
    exact leads_idle rfl rfl rfl
  rw [transition_of_watched watched active]
  exact (leads_apply k t m _).judge_of_move (leads_evaluate _ _ _ _ _)

theorem leads_receive {m : Monitor} {f : Channel → Answer × Channel} {limit : Nat}
    (taken : (f m.channel).2 = (Channel.drainUpTo limit m.channel).2) :
    (if m.channel.streamOpen then Effect.take limit else .idle).Leads m (m.receive f).2 := by
  unfold receive
  by_cases isOpen : m.channel.streamOpen = true
  · rw [if_pos isOpen, if_pos isOpen]
    exact ⟨fun k => rfl, taken, rfl⟩
  · rw [if_neg isOpen, if_neg isOpen]
    exact leads_idle rfl rfl rfl

/-! ### All operations -/

theorem leads_step (op : Op) (m : Monitor) : (m.effect op).Leads m (m.step op).2 := by
  cases op with
  | store b =>
    refine leads_afterWrite fun after written => ?_
    rcases h : m.thresholds.store b with fault | thresholds
    · rw [store, h] at written
      cases written
    · rw [store, h] at written
      cases written
      exact ⟨thresholds, rfl⟩
  | writeSlot index value =>
    refine leads_afterWrite fun after written => ?_
    rcases h : m.thresholds.write index value with fault | thresholds
    · rw [writeSlot, h] at written
      cases written
    · rw [writeSlot, h] at written
      cases written
      exact ⟨thresholds, rfl⟩
  | register k => exact leads_register k m
  | unregister k => exact leads_unregister k m
  | clearGate k => exact leads_clearGate k m
  | stats k => exact leads_idle rfl rfl rfl
  | apply k t => exact leads_apply k t m (m.apply k t).2.metrics
  | evaluate worker k b count => exact leads_evaluate worker k b count m
  | transition worker k t => exact leads_transition worker k t m
  | observe worker o =>
    simp only [effect, step, observe]
    rcases o.transition? with _ | ⟨k, t⟩
    · exact leads_idle rfl rfl rfl
    · exact leads_transition worker k t m
  | tryRecv =>
    refine leads_receive ?_
    rw [Channel.drainUpTo_one]
    rcases m.channel.tryRecv with _ | ⟨s, after⟩ <;> rfl
  | poll =>
    refine leads_receive ?_
    rw [Channel.drainUpTo_one]
    simp only [Channel.poll_eq]
    rcases m.channel.tryRecv with _ | ⟨s, after⟩ <;> rfl
  | drain => exact leads_receive rfl
  | dropStream => exact ⟨fun k => rfl, rfl, rfl⟩

theorem taken_effectOfTransition (worker : Nat) (k : Key) (t : Transition) (m : Monitor) :
    (m.effectOfTransition worker k t).taken m = [] := by
  unfold effectOfTransition
  split <;> rfl

theorem signals_receive {m : Monitor} {f : Channel → Answer × Channel} {limit : Nat}
    (taken : (f m.channel).1.signals = (Channel.drainUpTo limit m.channel).1) :
    (m.receive f).1.signals =
      (if m.channel.streamOpen then Effect.take limit else .idle).taken m := by
  unfold receive
  by_cases isOpen : m.channel.streamOpen = true
  · rw [if_pos isOpen, if_pos isOpen]
    exact taken
  · rw [if_neg isOpen, if_neg isOpen]
    rfl

/-- Only receiving brings signals out. -/
theorem signals_step (op : Op) (m : Monitor) :
    (m.step op).1.signals = (m.effect op).taken m := by
  cases op with
  | store b => simp only [step, afterWrite]; split <;> rfl
  | writeSlot index value => simp only [step, afterWrite]; split <;> rfl
  | register k =>
    simp only [step, effect, flagOrRefusal]
    split <;> split <;> rfl
  | clearGate k =>
    simp only [step, flagOrRefusal]
    split <;> rfl
  | unregister k => rfl
  | stats k => rfl
  | apply k t => rfl
  | evaluate worker k b count => rfl
  | dropStream => rfl
  | transition worker k t => exact (taken_effectOfTransition worker k t m).symm
  | observe worker o =>
    simp only [step, effect]
    split
    · exact (taken_effectOfTransition _ _ _ m).symm
    · rfl
  | tryRecv =>
    refine signals_receive ?_
    rw [Channel.drainUpTo_one]
    rcases m.channel.tryRecv with _ | ⟨s, after⟩ <;> rfl
  | poll =>
    refine signals_receive ?_
    rw [Channel.drainUpTo_one]
    simp only [Channel.poll_eq]
    rcases m.channel.tryRecv with _ | ⟨s, after⟩
    · cases m.channel.emitterOpen <;> rfl
    · rfl
  | drain => exact signals_receive rfl

theorem answer_of_transition {m : Monitor} {worker worker' : Nat} {k k' : Key} {t : Transition}
    {t' : Option Transition} {b : Bounds} {count : UInt32}
    (h : m.effectOfTransition worker k t = .judge worker' k' t' b count) :
    (m.transition worker k t).1 = m.fired k' t' b count := by
  unfold effectOfTransition at h
  split at h
  · next p b' watched active =>
    cases h
    rw [transition_of_watched watched active, (evaluate_eq _ _ _ _ _).1]
    exact (leads_apply k t m _).fired_of_move b (p.apply t).count
  · cases h

/-- The answer to an event is what its judgement fires. -/
theorem answer_of_judge {op : Op} {m : Monitor} {worker : Nat} {k : Key} {t : Option Transition}
    {b : Bounds} {count : UInt32} (h : m.effect op = .judge worker k t b count) :
    (m.step op).1 = .signal (m.fired k t b count) := by
  cases op with
  | evaluate worker k b count =>
    cases h
    exact congrArg Answer.signal (evaluate_eq worker k b count m).1
  | transition worker k t => exact congrArg Answer.signal (answer_of_transition h)
  | observe worker o =>
    rcases seen : o.transition? with _ | ⟨k', t'⟩
    · simp only [effect, seen] at h
      cases h
    · simp only [effect, seen] at h
      simp only [step, observe, seen]
      exact congrArg Answer.signal (answer_of_transition h)
  | store b => cases h
  | writeSlot index value => cases h
  | register k => simp only [effect] at h; split at h <;> cases h
  | unregister k => cases h
  | clearGate k => cases h
  | stats k => cases h
  | apply k t => cases h
  | tryRecv => simp only [effect] at h; split at h <;> cases h
  | poll => simp only [effect] at h; split at h <;> cases h
  | drain => simp only [effect] at h; split at h <;> cases h
  | dropStream => cases h

/-! ### Runs -/

theorem snd_run_append (ops later : List Op) (m : Monitor) :
    (run (ops ++ later) m).2 = (run later (run ops m).2).2 := by
  induction ops generalizing m with
  | nil => rfl
  | cons op ops ih => exact ih (m.step op).2

theorem run_concat (ops : List Op) (op : Op) (m : Monitor) :
    (run (ops ++ [op]) m).2 = ((run ops m).2.step op).2 :=
  snd_run_append ops [op] m

end ScaleWatch.Monitor
