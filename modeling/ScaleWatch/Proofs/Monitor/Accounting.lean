import ScaleWatch.Proofs.Channel.Emission
import ScaleWatch.Proofs.Monitor.SharedParts

/-!
# Nothing is lost in the accounting

Every operation posts to some of the seven counters of a monitor (`postings`), and the counters hold
what was posted (`metrics_step`).  The laws are then about postings alone: an event posts to one of
the four counters of events, a signal to one of the two counters of signals, a refused registration
to its own.  `accounts_balance` adds them up over whole runs, as long as no counter can wrap, and
says where the emitted signals are: received, or still queued.
-/

namespace ScaleWatch

/-! ### Counters -/

inductive Counter where
  | processed
  | ignored
  | unwatched
  | unconfigured
  | emitted
  | dropped
  | rejected
  deriving DecidableEq

/-- The counters that say what became of an event. -/
def Counter.isOfEvents : Counter → Bool
  | processed | ignored | unwatched | unconfigured => true
  | _ => false

/-- The counters that say what became of a signal. -/
def Counter.isOfSignals : Counter → Bool
  | emitted | dropped => true
  | _ => false

namespace Metrics

def value (c : Counter) (m : Metrics) : UInt64 :=
  match c with
  | .processed => m.eventsProcessed
  | .ignored => m.eventsIgnored
  | .unwatched => m.eventsUnwatched
  | .unconfigured => m.eventsUnconfigured
  | .emitted => m.signalsEmitted
  | .dropped => m.signalsDropped
  | .rejected => m.registrationsRejected

def post (m : Metrics) (c : Counter) : Metrics :=
  match c with
  | .processed => m.countProcessed
  | .ignored => m.countIgnored
  | .unwatched => m.countUnwatched
  | .unconfigured => m.countUnconfigured
  | .emitted => m.countSignal true
  | .dropped => m.countSignal false
  | .rejected => m.countRejected

theorem value_post (c c' : Counter) (m : Metrics) :
    (m.post c).value c' = if c = c' then m.value c' + 1 else m.value c' := by
  cases c <;> cases c' <;> rfl

theorem toNat_value_post {c c' : Counter} {m : Metrics}
    (room : (m.value c').toNat + 1 < UInt64.size) :
    ((m.post c).value c').toNat = (m.value c').toNat + if c = c' then 1 else 0 := by
  rw [value_post]
  by_cases here : c = c'
  · rw [if_pos here, if_pos here, UInt64.toNat_add]
    exact Nat.mod_eq_of_lt room
  · rw [if_neg here, if_neg here]
    rfl

/-- A counter holds what was posted to it, unless that is too much for a word. -/
theorem toNat_value_foldl {c : Counter} {posted : List Counter} {m : Metrics}
    (room : (m.value c).toNat + posted.count c < UInt64.size) :
    ((posted.foldl post m).value c).toNat = (m.value c).toNat + posted.count c := by
  induction posted generalizing m with
  | nil => rfl
  | cons first rest ih =>
    rw [List.count_cons] at room ⊢
    have step : ((m.post first).value c).toNat =
        (m.value c).toNat + if first == c then 1 else 0 := by
      by_cases here : first = c
      · have one : (m.value c).toNat + 1 < UInt64.size := by
          simp only [here, beq_self_eq_true, if_true] at room
          omega
        rw [toNat_value_post one]
        simp [here]
      · simp [value_post, here]
    have tail := ih (m := m.post first) (by omega)
    rw [List.foldl_cons, tail, step]
    omega

end Metrics

namespace Monitor

/-! ### What an operation posts -/

/-- What becomes of a signal, if one is fired. -/
def postingOfSignal (worker : Nat) (fired : Option Direction) (m : Monitor) : List Counter :=
  match fired with
  | some _ => [if m.channel.accepts worker then .emitted else .dropped]
  | none => []

def postingsOfTransition (worker : Nat) (k : Key) (t : Transition) (m : Monitor) : List Counter :=
  match m.registry.find? k, m.thresholds.active? with
  | none, _ => [.unwatched]
  | some _, none => [.unconfigured]
  | some p, some b =>
    .processed :: m.postingOfSignal worker (m.fired k (some t) b (p.apply t).count)

/-- The counters that an operation counts up. -/
def postings (op : Op) (m : Monitor) : List Counter :=
  match op with
  | .register k =>
    if m.registry.contains k ∨ m.registry.reserved < m.registry.capacity then [] else [.rejected]
  | .evaluate worker k b count => m.postingOfSignal worker (m.fired k none b count)
  | .transition worker k t => m.postingsOfTransition worker k t
  | .observe worker o =>
    match o.transition? with
    | some (k, t) => m.postingsOfTransition worker k t
    | none => [.ignored]
  | _ => []

theorem metrics_evaluate (worker : Nat) (k : Key) (b : Bounds) (count : UInt32) (m : Monitor) :
    (m.evaluate worker k b count).2.metrics =
      (m.postingOfSignal worker (m.fired k none b count)).foldl Metrics.post m.metrics := by
  rw [← (evaluate_eq worker k b count m).1]
  unfold evaluate
  rcases m.registry.update k (Pressure.evaluate m.policy b count) with _ | ⟨_ | d, registry⟩
  · rfl
  · rfl
  · simp only [postingOfSignal, send, Channel.fst_emit]
    by_cases accepted : m.channel.accepts worker = true
    · simp [accepted, Metrics.post]
    · simp [accepted, Metrics.post]

theorem metrics_transition (worker : Nat) (k : Key) (t : Transition) (m : Monitor) :
    (m.transition worker k t).2.metrics =
      (m.postingsOfTransition worker k t).foldl Metrics.post m.metrics := by
  unfold postingsOfTransition
  rcases watched : m.registry.find? k with _ | p
  · have absent : ¬m.registry.contains k = true := by simp [Registry.contains, watched]
    rw [transition, if_neg absent]
    rfl
  rcases active : m.thresholds.active? with _ | b
  · have present : m.registry.contains k = true := Registry.contains_iff.2 ⟨p, watched⟩
    rw [transition, if_pos present, active]
    rfl
  have moved := leads_apply k t m m.metrics.countProcessed
  have channel : (m.apply k t).2.channel = m.channel := moved.channel
  have fired := moved.fired_of_move b (p.apply t).count
  rw [transition_of_watched watched active, metrics_evaluate, fired]
  simp only [postingOfSignal, channel]
  rfl

theorem metrics_receive (m : Monitor) (f : Channel → Answer × Channel) :
    (m.receive f).2.metrics = m.metrics := by
  unfold receive
  split <;> rfl

/-- The counters hold what is posted to them. -/
theorem metrics_step (op : Op) (m : Monitor) :
    (m.step op).2.metrics = (m.postings op).foldl Metrics.post m.metrics := by
  cases op with
  | store b =>
    simp only [step, Monitor.store]
    cases m.thresholds.store b <;> rfl
  | writeSlot index value =>
    simp only [step, Monitor.writeSlot]
    cases m.thresholds.write index value <;> rfl
  | register k =>
    simp only [step, register, Registry.register, postings]
    by_cases watched : m.registry.contains k = true
    · simp [watched]
    · by_cases room : m.registry.reserved < m.registry.capacity
      · simp [watched, room]
      · simp [watched, room, Metrics.post]
  | unregister k => rfl
  | clearGate k =>
    simp only [step, clearGate_eq_elim]
    rfl
  | stats k => rfl
  | apply k t =>
    simp only [step, apply_eq_elim]
    rfl
  | evaluate worker k b count => exact metrics_evaluate worker k b count m
  | transition worker k t => exact metrics_transition worker k t m
  | observe worker o =>
    simp only [step, observe, postings]
    rcases o.transition? with _ | ⟨k, t⟩
    · rfl
    · exact metrics_transition worker k t m
  | tryRecv => exact metrics_receive m _
  | poll => exact metrics_receive m _
  | drain => exact metrics_receive m _
  | dropStream => rfl

/-! ### The laws of one operation -/

/-- The operation reports an event. -/
def Op.isEvent : Op → Bool
  | transition _ _ _ | observe _ _ => true
  | _ => false

def Op.isRegistration : Op → Bool
  | register _ => true
  | _ => false

/-- A signal was fired. -/
def Answer.isSignal : Answer → Bool
  | signal (some _) => true
  | _ => false

/-- There was no place for a key. -/
def Answer.isLackOfPlaces : Answer → Bool
  | refused (.registryFull _) => true
  | _ => false

section Signal

variable (worker : Nat) (fired : Option Direction) (m : Monitor)

theorem countP_events_postingOfSignal :
    (m.postingOfSignal worker fired).countP Counter.isOfEvents = 0 := by
  rcases fired with _ | d
  · rfl
  · rw [postingOfSignal]
    split <;> rfl

theorem countP_signals_postingOfSignal :
    (m.postingOfSignal worker fired).countP Counter.isOfSignals =
      (Answer.signal fired).isSignal.toNat := by
  rcases fired with _ | d
  · rfl
  · rw [postingOfSignal]
    split <;> rfl

theorem count_rejected_postingOfSignal : (m.postingOfSignal worker fired).count .rejected = 0 := by
  rcases fired with _ | d
  · rfl
  · rw [postingOfSignal]
    split <;> rfl

theorem count_emitted_postingOfSignal :
    (m.postingOfSignal worker fired).count .emitted =
      if fired.isSome ∧ m.channel.accepts worker then 1 else 0 := by
  rcases fired with _ | d
  · rfl
  · rw [postingOfSignal]
    by_cases accepted : m.channel.accepts worker = true
    · simp [accepted]
    · simp [accepted]

end Signal

/-- Every event is processed, ignored, unwatched or unconfigured. -/
theorem countP_events_postings (op : Op) (m : Monitor) :
    (m.postings op).countP Counter.isOfEvents = op.isEvent.toNat := by
  have transition : ∀ worker k t,
      (m.postingsOfTransition worker k t).countP Counter.isOfEvents = 1 := by
    intro worker k t
    unfold postingsOfTransition
    split
    · rfl
    · rfl
    · rw [List.countP_cons, countP_events_postingOfSignal]
      rfl
  cases op with
  | register k => rw [postings]; split <;> rfl
  | evaluate worker k b count => exact countP_events_postingOfSignal worker _ m
  | transition worker k t => exact transition worker k t
  | observe worker o =>
    rw [postings]
    rcases o.transition? with _ | ⟨k, t⟩
    · rfl
    · exact transition worker k t
  | _ => rfl

theorem countP_signals_postingsOfTransition (worker : Nat) (k : Key) (t : Transition)
    (m : Monitor) :
    (m.postingsOfTransition worker k t).countP Counter.isOfSignals =
      (Answer.signal (m.transition worker k t).1).isSignal.toNat := by
  rw [fst_transition, postingsOfTransition]
  rcases m.registry.find? k with _ | p
  · rfl
  rcases m.thresholds.active? with _ | b
  · rfl
  simp only [List.countP_cons, countP_signals_postingOfSignal]
  rfl

/-- Every signal is emitted or dropped. -/
theorem countP_signals_postings (op : Op) (m : Monitor) :
    (m.postings op).countP Counter.isOfSignals = (m.step op).1.isSignal.toNat := by
  cases op with
  | store b =>
    simp only [step, Monitor.store, postings]
    cases m.thresholds.store b <;> rfl
  | writeSlot index value =>
    simp only [step, Monitor.writeSlot, postings]
    cases m.thresholds.write index value <;> rfl
  | register k =>
    rw [answer_register, postings]
    by_cases watched : m.registry.contains k = true
    · simp [watched, Answer.isSignal]
    · by_cases room : m.registry.reserved < m.registry.capacity
      · simp [watched, room, Answer.isSignal]
      · simp [watched, room, Answer.isSignal, Counter.isOfSignals]
  | clearGate k =>
    simp only [step, postings]
    rcases (m.clearGate k).1 <;> rfl
  | evaluate worker k b count =>
    rw [answer_of_judge rfl]
    exact countP_signals_postingOfSignal worker _ m
  | transition worker k t => exact countP_signals_postingsOfTransition worker k t m
  | observe worker o =>
    simp only [step, observe, postings]
    rcases o.transition? with _ | ⟨k, t⟩
    · rfl
    · exact countP_signals_postingsOfTransition worker k t m
  | tryRecv =>
    simp only [step, receive, postings]
    split
    · rcases m.channel.tryRecv with _ | ⟨s, after⟩ <;> rfl
    · rfl
  | poll => simp only [step, receive, postings]; split <;> rfl
  | drain => simp only [step, receive, postings]; split <;> rfl
  | unregister k => rfl
  | stats k => rfl
  | apply k t => rfl
  | dropStream => rfl

/-- Every registration that finds no place is rejected. -/
theorem count_rejected_postings (op : Op) (m : Monitor) :
    (m.postings op).count .rejected =
      (op.isRegistration && (m.step op).1.isLackOfPlaces).toNat := by
  have transition : ∀ worker k t, (m.postingsOfTransition worker k t).count .rejected = 0 := by
    intro worker k t
    unfold postingsOfTransition
    split
    · rfl
    · rfl
    · rw [List.count_cons, count_rejected_postingOfSignal]
      rfl
  cases op with
  | register k =>
    rw [answer_register, postings]
    by_cases watched : m.registry.contains k = true
    · simp [watched, Answer.isLackOfPlaces]
    · by_cases room : m.registry.reserved < m.registry.capacity
      · simp [watched, room, Answer.isLackOfPlaces]
      · simp [watched, room, Answer.isLackOfPlaces, Op.isRegistration]
  | evaluate worker k b count => exact count_rejected_postingOfSignal worker _ m
  | transition worker k t => exact transition worker k t
  | observe worker o =>
    rw [postings]
    rcases o.transition? with _ | ⟨k, t⟩
    · rfl
    · exact transition worker k t
  | _ => rfl

/-- The number of signals that an effect puts into the channel. -/
def Effect.accepted (m : Monitor) : Effect → Nat
  | judge worker k t b count =>
    if (m.fired k t b count).isSome ∧ m.channel.accepts worker then 1 else 0
  | _ => 0

theorem count_emitted_postingsOfTransition (worker : Nat) (k : Key) (t : Transition) (m : Monitor) :
    (m.postingsOfTransition worker k t).count .emitted =
      (m.effectOfTransition worker k t).accepted m := by
  rw [postingsOfTransition, effectOfTransition]
  rcases m.registry.find? k with _ | p
  · rfl
  rcases m.thresholds.active? with _ | b
  · rfl
  simp only [List.count_cons, count_emitted_postingOfSignal]
  rfl

theorem count_emitted_postings (op : Op) (m : Monitor) :
    (m.postings op).count .emitted = (m.effect op).accepted m := by
  cases op with
  | register k =>
    rw [postings, effect]
    split <;> split <;> rfl
  | evaluate worker k b count => exact count_emitted_postingOfSignal worker _ m
  | transition worker k t => exact count_emitted_postingsOfTransition worker k t m
  | observe worker o =>
    rw [postings, effect]
    rcases o.transition? with _ | ⟨k, t⟩
    · rfl
    · exact count_emitted_postingsOfTransition worker k t m
  | tryRecv => rw [effect]; split <;> rfl
  | poll => rw [effect]; split <;> rfl
  | drain => rw [effect]; split <;> rfl
  | _ => rfl

theorem Effect.pending_onChannel (e : Effect) (m : Monitor)
    (isOpen : (e.onChannel m).streamOpen = true) :
    m.channel.streamOpen = true ∧
      m.channel.pending + e.accepted m = (e.taken m).length + (e.onChannel m).pending := by
  cases e with
  | judge worker k t b count =>
    simp only [onChannel, accepted, taken] at isOpen ⊢
    rcases fired : m.fired k t b count with _ | d
    · rw [fired] at isOpen
      exact ⟨isOpen, by simp⟩
    · rw [fired] at isOpen
      simp only [Channel.streamOpen_emit] at isOpen
      refine ⟨isOpen, ?_⟩
      simp [Channel.pending_emit]
  | take limit =>
    obtain ⟨conserved, same⟩ := Channel.drainUpTo_spec limit m.channel
    refine ⟨same.symm.trans isOpen, ?_⟩
    exact conserved.symm
  | close => cases isOpen
  | idle => exact ⟨isOpen, (Nat.zero_add _).symm⟩
  | watch k => exact ⟨isOpen, (Nat.zero_add _).symm⟩
  | forget k => exact ⟨isOpen, (Nat.zero_add _).symm⟩
  | release k => exact ⟨isOpen, (Nat.zero_add _).symm⟩
  | move k t => exact ⟨isOpen, (Nat.zero_add _).symm⟩

/-- As long as the stream is there, an emitted signal is received or still queued. -/
theorem pending_step (op : Op) (m : Monitor)
    (isOpen : (m.step op).2.channel.streamOpen = true) :
    m.channel.streamOpen = true ∧
      m.channel.pending + (m.postings op).count .emitted =
        (m.step op).1.signals.length + (m.step op).2.channel.pending := by
  have channel := (leads_step op m).channel
  rw [channel] at isOpen ⊢
  rw [count_emitted_postings, signals_step]
  exact (m.effect op).pending_onChannel m isOpen

theorem count_postings_le (op : Op) (m : Monitor) (c : Counter) : (m.postings op).count c ≤ 1 := by
  have bounded : ∀ p : Counter → Bool, p c →
      (m.postings op).count c ≤ (m.postings op).countP p := by
    intro p hit
    refine List.countP_mono_left fun x _ same => ?_
    rwa [beq_iff_eq.1 same]
  by_cases ofEvents : c.isOfEvents = true
  · have few := bounded _ ofEvents
    rw [countP_events_postings] at few
    exact Nat.le_trans few (Bool.toNat_le _)
  by_cases ofSignals : c.isOfSignals = true
  · have few := bounded _ ofSignals
    rw [countP_signals_postings] at few
    exact Nat.le_trans few (Bool.toNat_le _)
  · have rest : c = .rejected := by
      cases c <;> simp [Counter.isOfEvents, Counter.isOfSignals] at ofEvents ofSignals ⊢
    rw [rest, count_rejected_postings]
    exact Bool.toNat_le _

/-! ### The laws of a whole run -/

/-- All that the operations of a run post. -/
def ledger : List Op → Monitor → List Counter
  | [], _ => []
  | op :: ops, m => m.postings op ++ ledger ops (m.step op).2

theorem metrics_run (ops : List Op) (m : Monitor) :
    (run ops m).2.metrics = (ledger ops m).foldl Metrics.post m.metrics := by
  induction ops generalizing m with
  | nil => rfl
  | cons op ops ih =>
    rw [ledger, List.foldl_append, ← metrics_step]
    exact ih (m.step op).2

theorem count_ledger_le (c : Counter) (ops : List Op) (m : Monitor) :
    (ledger ops m).count c ≤ ops.length := by
  induction ops generalizing m with
  | nil => exact Nat.le_refl 0
  | cons op ops ih =>
    have first := count_postings_le op m c
    have rest := ih (m.step op).2
    rw [ledger, List.count_append, List.length_cons]
    omega

theorem countP_events_ledger (ops : List Op) (m : Monitor) :
    (ledger ops m).countP Counter.isOfEvents = ops.countP Op.isEvent := by
  induction ops generalizing m with
  | nil => rfl
  | cons op ops ih =>
    rw [ledger, List.countP_append, ih, countP_events_postings, List.countP_cons]
    cases op.isEvent <;> simp [Nat.add_comm]

theorem countP_signals_ledger (ops : List Op) (m : Monitor) :
    (ledger ops m).countP Counter.isOfSignals = (run ops m).1.countP Answer.isSignal := by
  induction ops generalizing m with
  | nil => rfl
  | cons op ops ih =>
    rw [ledger, List.countP_append, ih, countP_signals_postings]
    show _ = List.countP _ ((m.step op).1 :: (run ops (m.step op).2).1)
    rw [List.countP_cons]
    cases (m.step op).1.isSignal <;> simp [Nat.add_comm]

theorem count_rejected_ledger (ops : List Op) (m : Monitor) :
    (ledger ops m).count .rejected =
      (ops.zip (run ops m).1).countP fun x => x.1.isRegistration && x.2.isLackOfPlaces := by
  induction ops generalizing m with
  | nil => rfl
  | cons op ops ih =>
    rw [ledger, List.count_append, ih, count_rejected_postings]
    show _ = List.countP _ ((op, (m.step op).1) :: ops.zip (run ops (m.step op).2).1)
    rw [List.countP_cons]
    cases op.isRegistration && (m.step op).1.isLackOfPlaces <;> simp [Nat.add_comm]

theorem pending_run (ops : List Op) (m : Monitor)
    (isOpen : (run ops m).2.channel.streamOpen = true) :
    m.channel.streamOpen = true ∧
      m.channel.pending + (ledger ops m).count .emitted =
        ((run ops m).1.flatMap Answer.signals).length + (run ops m).2.channel.pending := by
  induction ops generalizing m with
  | nil => exact ⟨isOpen, (Nat.zero_add _).symm⟩
  | cons op ops ih =>
    obtain ⟨between, rest⟩ := ih (m.step op).2 isOpen
    obtain ⟨before, first⟩ := pending_step op m between
    refine ⟨before, ?_⟩
    rw [ledger, List.count_append]
    show _ = (((m.step op).1 :: (run ops (m.step op).2).1).flatMap Answer.signals).length +
      (run ops (m.step op).2).2.channel.pending
    rw [List.flatMap_cons, List.length_append]
    omega

theorem countP_isOfEvents (posted : List Counter) :
    posted.countP Counter.isOfEvents = posted.count .processed + posted.count .ignored +
      posted.count .unwatched + posted.count .unconfigured := by
  induction posted with
  | nil => rfl
  | cons c rest ih =>
    rw [List.countP_cons, ih]
    cases c <;> simp [Counter.isOfEvents] <;> omega

theorem countP_isOfSignals (posted : List Counter) :
    posted.countP Counter.isOfSignals = posted.count .emitted + posted.count .dropped := by
  induction posted with
  | nil => rfl
  | cons c rest ih =>
    rw [List.countP_cons, ih]
    cases c <;> simp [Counter.isOfSignals] <;> omega

/-- In a run that is too short for a counter to wrap, the counters hold what was posted. -/
theorem toNat_value_run {ops : List Op} (few : ops.length < UInt64.size) (settings : Settings)
    (c : Counter) :
    ((run ops (.new settings)).2.metrics.value c).toNat = (ledger ops (.new settings)).count c := by
  have zero : ((new settings).metrics.value c).toNat = 0 := by cases c <;> rfl
  have room := Nat.lt_of_le_of_lt (count_ledger_le c ops (.new settings)) few
  rw [metrics_run, Metrics.toNat_value_foldl (by omega), zero, Nat.zero_add]

/-- Every event is in one of the four counters of events, every signal that was fired is emitted or
dropped, every registration that found no place is rejected, and as long as the stream is there the
signals emitted are those received and those still queued. -/
theorem accounts_balance (settings : Settings) (ops : List Op) (few : ops.length < UInt64.size) :
    let (answers, m) := run ops (.new settings)
    m.metrics.eventsProcessed.toNat + m.metrics.eventsIgnored.toNat +
        m.metrics.eventsUnwatched.toNat + m.metrics.eventsUnconfigured.toNat =
        ops.countP Op.isEvent ∧
      m.metrics.signalsEmitted.toNat + m.metrics.signalsDropped.toNat =
        answers.countP Answer.isSignal ∧
      m.metrics.registrationsRejected.toNat =
        ((ops.zip answers).countP fun x => x.1.isRegistration && x.2.isLackOfPlaces) ∧
      (m.channel.streamOpen = true →
        m.metrics.signalsEmitted.toNat =
          (answers.flatMap Answer.signals).length + m.channel.pending) := by
  have value := toNat_value_run few settings
  refine ⟨?_, ?_, ?_, fun isOpen => ?_⟩
  · rw [← countP_events_ledger ops (.new settings), countP_isOfEvents, ← value, ← value, ← value,
      ← value]
    rfl
  · rw [← countP_signals_ledger ops (.new settings), countP_isOfSignals, ← value, ← value]
    rfl
  · rw [← count_rejected_ledger ops (.new settings), ← value]
    rfl
  · have empty : (new settings).channel.pending = 0 := by
      simp [Channel.pending, new, Channel.new]
    have balance := (pending_run ops (.new settings) isOpen).2
    rw [empty, Nat.zero_add, ← value] at balance
    exact balance

/-- One of each: an ignored event, an unwatched one and an unconfigured one, three signals of which
one is dropped and one is received, and a rejected registration. -/
def eventful : List Op :=
  [.register (.port 1), .register (.port 2), .observe 0 (.tracepoint 1 10),
    .transition 0 (.port 2) .closed, .transition 0 (.port 1) .closed, .store ⟨2, 10, 1⟩,
    .transition 0 (.port 1) .closed, .evaluate 1 (.port 1) ⟨2, 10, 1⟩ 11,
    .observe 0 (.event ⟨.port 1, 8⟩), .poll]

theorem accounts_balance_eventful :
    let (answers, m) := run eventful (.new ⟨.ungated, 1, 2, 1⟩)
    eventful.length < UInt64.size ∧
      (m.metrics.eventsProcessed.toNat + m.metrics.eventsIgnored.toNat +
          m.metrics.eventsUnwatched.toNat + m.metrics.eventsUnconfigured.toNat =
          eventful.countP Op.isEvent ∧
        m.metrics.signalsEmitted.toNat + m.metrics.signalsDropped.toNat =
          answers.countP Answer.isSignal ∧
        m.metrics.registrationsRejected.toNat =
          ((eventful.zip answers).countP fun x => x.1.isRegistration && x.2.isLackOfPlaces) ∧
        (m.channel.streamOpen = true →
          m.metrics.signalsEmitted.toNat =
            (answers.flatMap Answer.signals).length + m.channel.pending)) ∧
      m.metrics = ⟨2, 1, 1, 1, 2, 1, 1⟩ ∧ m.channel.streamOpen = true ∧ m.channel.pending = 1 := by
  have few : eventful.length < UInt64.size := by decide
  exact ⟨few, accounts_balance ⟨.ungated, 1, 2, 1⟩ eventful few, by decide +kernel,
    by decide +kernel, by decide +kernel⟩

end Monitor

end ScaleWatch
