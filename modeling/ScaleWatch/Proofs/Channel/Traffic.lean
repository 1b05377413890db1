import ScaleWatch.Proofs.Channel.Emission

/-!
# What goes through a channel comes out in order

`Channel.step` is a channel as a machine over what can be done at its two ends, and a run of it is
a list of such operations.  Every signal that is received comes from one slot (`deliveries`).  Then
what a slot has accepted is what was received from it, followed by what it still holds
(`conserves_run`): nothing is lost, doubled or put into another order, whatever is asked of the
other slots and in whichever way signals are received.

What carries the proof is that each receive takes the head of one queue (`queue_takeUpTo`); the
rest is adding up over a run.
-/

namespace ScaleWatch.Channel

/-! ### Operations -/

/-- What can be done at the two ends of a channel. -/
inductive Op where
  | emit (worker : Nat) (s : Signal)
  | tryRecv
  | poll
  /-- Wait for a signal, as far as one poll goes. -/
  | recv
  | drain
  | dropEmitter
  | dropStream
  deriving DecidableEq

inductive Answer where
  | accepted (b : Bool)
  /-- The signal that was received; none is ready, or none will come. -/
  | received (s : Option Signal)
  /-- There is no signal yet. -/
  | waiting
  | polled (p : Poll)
  | drained (signals : List Signal)
  /-- Whether the end that is dropped was still there. -/
  | dropped (b : Bool)
  /-- The end of the channel that is needed is gone. -/
  | gone
  deriving DecidableEq

/-- The signals in an answer. -/
def Answer.signals : Answer → List Signal
  | received s => s.toList
  | polled (.ready s) => [s]
  | drained signals => signals
  | _ => []

/-- What is told to one who waits. -/
def Poll.awaited : Poll → Answer
  | ready s => .received (some s)
  | ended => .received none
  | pending => .waiting

def Op.isReceive : Op → Bool
  | tryRecv | poll | recv | drain => true
  | emit _ _ | dropEmitter | dropStream => false

/-- Receive from the stream, if it is still there. -/
def receive (c : Channel) (f : Channel → Answer × Channel) : Answer × Channel :=
  if c.streamOpen then f c else (.gone, c)

def step (op : Op) (c : Channel) : Answer × Channel :=
  match op with
  | .emit worker s =>
    if c.emitterOpen then
      let (accepted, c) := c.emit worker s
      (.accepted accepted, c)
    else (.gone, c)
  | .tryRecv => c.receive fun c =>
    match c.tryRecv with
    | some (s, c) => (.received (some s), c)
    | none => (.received none, c)
  | .poll => c.receive fun c =>
    let (p, c) := c.poll
    (.polled p, c)
  | .recv => c.receive fun c =>
    let (p, c) := c.poll
    (p.awaited, c)
  | .drain => c.receive fun c =>
    let (signals, c) := c.drain
    (.drained signals, c)
  | .dropEmitter => (.dropped c.emitterOpen, c.dropEmitter)
  | .dropStream => (.dropped c.streamOpen, c.dropStream)

/-- Do operations in order. -/
def run : List Op → Channel → List Answer × Channel
  | [], c => ([], c)
  | op :: ops, c =>
    let (answer, c) := c.step op
    let (answers, c) := run ops c
    (answer :: answers, c)

/-! ### Where a signal comes from -/

/-- The signals that are received when at most `limit` are taken, each with the slot that it was
taken from. -/
def takeUpTo : Nat → Channel → List (Nat × Signal)
  | 0, _ => []
  | limit + 1, c =>
    match c.front?, c.tryRecv with
    | some i, some (s, after) => (i, s) :: takeUpTo limit after
    | _, _ => []

/-- How many signals an operation takes at most. -/
def Op.limit (c : Channel) : Op → Nat
  | tryRecv | poll | recv => if c.streamOpen then 1 else 0
  | drain => if c.streamOpen then c.pending else 0
  | emit _ _ | dropEmitter | dropStream => 0

/-- The signals that are received in a run, each with the slot that it was taken from. -/
def deliveries : List Op → Channel → List (Nat × Signal)
  | [], _ => []
  | op :: ops, c => c.takeUpTo (op.limit c) ++ deliveries ops (c.step op).2

/-- The signals that are received from slot `i` in a run. -/
def receivedFrom (i : Nat) (ops : List Op) (c : Channel) : List Signal :=
  ((deliveries ops c).filter (·.1 = i)).map (·.2)

/-- The signals that slot `i` accepts from an operation. -/
def Op.accepted (i : Nat) (c : Channel) : Op → List Signal
  | emit worker s =>
    if worker % c.slots.length = i ∧ (c.step (.emit worker s)).1 = .accepted true then [s] else []
  | _ => []

/-- The signals that slot `i` accepts in a run. -/
def acceptedOn (i : Nat) : List Op → Channel → List Signal
  | [], _ => []
  | op :: ops, c => op.accepted i c ++ acceptedOn i ops (c.step op).2

/-! ### Queues -/

theorem queue_eq_getElem {c : Channel} {i : Nat} (h : i < c.slots.length) :
    c.queue i = c.slots[i] := by
  rw [queue, List.getElem?_eq_getElem h, Option.getD_some]

theorem queue_of_le {c : Channel} {i : Nat} (h : c.slots.length ≤ i) : c.queue i = [] := by
  rw [queue, List.getElem?_eq_none h, Option.getD_none]

theorem queue_served {c : Channel} {i : Nat} (h : i < c.slots.length) (rest : List Signal)
    (j : Nat) : (c.served i rest).queue j = if j = i then rest else c.queue j := by
  simp only [queue, served, List.getElem?_set]
  by_cases same : i = j
  · simp [same, same ▸ h]
  · simp [same, Ne.symm same]

theorem queue_emit (c : Channel) (worker : Nat) (s : Signal) (j : Nat) :
    (c.emit worker s).2.queue j =
      if worker % c.slots.length = j ∧ c.accepts worker = true then c.queue j ++ [s]
      else c.queue j := by
  by_cases accepts : c.accepts worker = true
  · have accepted : c.streamOpen = true ∧
        (c.slots[worker % c.slots.length]?.getD []).length < c.capacity := of_decide_eq_true accepts
    have inside : worker % c.slots.length < c.slots.length := Nat.mod_lt _ c.slots_pos
    unfold emit
    simp only [accepted, accepts, and_self, and_true, if_true]
    by_cases same : worker % c.slots.length = j
    · subst same
      simp [queue, inside]
    · simp [queue, same]
  · rw [emit_of_refuses _ _ _ (by simpa using accepts), if_neg fun h => accepts h.2]

theorem forall_queue_eq_nil_iff (c : Channel) :
    (∀ i, c.queue i = []) ↔ ∀ q ∈ c.slots, q = [] := by
  constructor
  · intro empty q inside
    obtain ⟨i, here, rfl⟩ := List.mem_iff_getElem.1 inside
    rw [← queue_eq_getElem here, empty]
  · intro empty i
    rcases Nat.lt_or_ge i c.slots.length with inside | outside
    · rw [queue_eq_getElem inside]
      exact empty _ (List.getElem_mem inside)
    · exact queue_of_le outside

theorem forall_queue_of_pending {c : Channel} (h : c.pending = 0) (i : Nat) : c.queue i = [] :=
  (forall_queue_eq_nil_iff c).2 ((tryRecv_eq_none_iff c).1 ((pending_eq_zero_iff c).1 h)) i

/-! ### Taking signals -/

/-- Taking a signal takes it from the head of one queue. -/
theorem queue_of_tryRecv {c after : Channel} {s : Signal} (h : c.tryRecv = some (s, after)) :
    ∃ i, c.front? = some i ∧
      ∀ j, c.queue j = (if i = j then [s] else []) ++ after.queue j := by
  obtain ⟨i, rest, front, held, rfl⟩ := exists_of_tryRecv h
  have inside := (front?_spec front).1
  refine ⟨i, front, fun j => ?_⟩
  rw [queue_served inside]
  by_cases same : i = j
  · subst same
    simp [queue, held]
  · simp [same, Ne.symm same]

/-- What is taken from a slot stood in front of what is left in it. -/
theorem queue_takeUpTo (limit : Nat) (c : Channel) (i : Nat) :
    c.queue i =
      ((c.takeUpTo limit).filter (·.1 = i)).map (·.2) ++ (drainUpTo limit c).2.queue i := by
  induction limit generalizing c with
  | zero => rfl
  | succ limit ih =>
    rw [takeUpTo, drainUpTo]
    rcases h : c.tryRecv with _ | ⟨s, after⟩
    · simp
    · obtain ⟨slot, front, queue⟩ := queue_of_tryRecv h
      rw [queue i, ih after, front]
      by_cases same : slot = i
      · simp [same]
      · simp [same]

theorem map_snd_takeUpTo (limit : Nat) (c : Channel) :
    (c.takeUpTo limit).map (·.2) = (drainUpTo limit c).1 := by
  induction limit generalizing c with
  | zero => rfl
  | succ limit ih =>
    rw [takeUpTo, drainUpTo]
    rcases h : c.tryRecv with _ | ⟨s, after⟩
    · simp
    · obtain ⟨slot, front, -⟩ := queue_of_tryRecv h
      rw [front, List.map_cons, ih after]

theorem pending_drainUpTo (limit : Nat) (c : Channel) :
    (drainUpTo limit c).2.pending = c.pending - limit := by
  induction limit generalizing c with
  | zero => rfl
  | succ limit ih =>
    rw [drainUpTo]
    rcases h : c.tryRecv with _ | ⟨s, after⟩
    · have empty := (pending_eq_zero_iff c).2 h
      show c.pending = _
      omega
    · have taken := pending_of_tryRecv h
      show (drainUpTo limit after).2.pending = _
      rw [ih after]
      omega

/-! ### One operation -/

section Step

variable (op : Op) (c : Channel)

/-- Receiving, in whichever way, is taking signals up to a limit. -/
theorem step_of_receive (h : op.isReceive = true) :
    (c.step op).1.signals = (drainUpTo (op.limit c) c).1 ∧
      (c.step op).2 = (drainUpTo (op.limit c) c).2 := by
  by_cases isOpen : c.streamOpen = true
  · cases op with
    | tryRecv =>
      simp only [step, receive, isOpen, if_true, Op.limit, drainUpTo_one]
      rcases c.tryRecv with _ | ⟨s, after⟩ <;> exact ⟨rfl, rfl⟩
    | poll =>
      simp only [step, receive, isOpen, if_true, Op.limit, drainUpTo_one, poll_eq]
      rcases c.tryRecv with _ | ⟨s, after⟩
      · cases c.emitterOpen <;> exact ⟨rfl, rfl⟩
      · exact ⟨rfl, rfl⟩
    | recv =>
      simp only [step, receive, isOpen, if_true, Op.limit, drainUpTo_one, poll_eq]
      rcases c.tryRecv with _ | ⟨s, after⟩
      · cases c.emitterOpen <;> exact ⟨rfl, rfl⟩
      · exact ⟨rfl, rfl⟩
    | drain =>
      simp only [step, receive, isOpen, if_true, Op.limit]
      exact ⟨rfl, rfl⟩
    | _ => cases h
  · cases op with
    | emit worker s => cases h
    | dropEmitter => cases h
    | dropStream => cases h
    | _ => simp [step, receive, isOpen, Op.limit, drainUpTo, Answer.signals]

theorem signals_step : (c.step op).1.signals = (c.takeUpTo (op.limit c)).map (·.2) := by
  by_cases receives : op.isReceive = true
  · rw [map_snd_takeUpTo, (step_of_receive op c receives).1]
  · cases op with
    | emit worker s =>
      simp only [step]
      split <;> rfl
    | dropEmitter => rfl
    | dropStream => rfl
    | _ => exact absurd rfl receives

theorem answer_emit (worker : Nat) (s : Signal) :
    (c.step (.emit worker s)).1 =
      if c.emitterOpen then .accepted (c.accepts worker) else .gone := by
  simp only [step]
  split
  · rw [← fst_emit worker s]
  · rfl

/-- What a slot held and accepts is what is received from it and what it still holds. -/
theorem conserves_step (kept : op ≠ .dropStream) (i : Nat) :
    c.queue i ++ op.accepted i c =
      ((c.takeUpTo (op.limit c)).filter (·.1 = i)).map (·.2) ++ (c.step op).2.queue i := by
  by_cases receives : op.isReceive = true
  · have nothing : op.accepted i c = [] := by
      cases op <;> first | rfl | cases receives
    rw [nothing, List.append_nil, (step_of_receive op c receives).2]
    exact queue_takeUpTo _ c i
  · cases op with
    | emit worker s =>
      rw [Op.accepted, answer_emit]
      by_cases isOpen : c.emitterOpen = true
      · have emitted : (c.step (.emit worker s)).2 = (c.emit worker s).2 := by
          simp only [step, isOpen, if_true]
        rw [emitted, queue_emit]
        by_cases here : worker % c.slots.length = i ∧ c.accepts worker = true
        · simp [isOpen, here, Op.limit, takeUpTo]
        · simp [isOpen, here, Op.limit, takeUpTo]
      · simp [isOpen, step, Op.limit, takeUpTo]
    | dropEmitter => exact List.append_nil _
    | dropStream => exact absurd rfl kept
    | _ => exact absurd rfl receives

/-- Operations do not change how large a channel is. -/
def SameSize (c c' : Channel) : Prop :=
  c'.slots.length = c.slots.length ∧ c'.capacity = c.capacity

theorem sameSize_drainUpTo (limit : Nat) (c : Channel) :
    c.SameSize (drainUpTo limit c).2 ∧ (drainUpTo limit c).2.emitterOpen = c.emitterOpen := by
  induction limit generalizing c with
  | zero => exact ⟨⟨rfl, rfl⟩, rfl⟩
  | succ limit ih =>
    rw [drainUpTo]
    rcases h : c.tryRecv with _ | ⟨s, after⟩
    · exact ⟨⟨rfl, rfl⟩, rfl⟩
    · obtain ⟨i, rest, -, -, rfl⟩ := exists_of_tryRecv h
      obtain ⟨⟨length, capacity⟩, emitter⟩ := ih (c.served i rest)
      exact ⟨⟨length.trans List.length_set, capacity⟩, emitter⟩

theorem sameSize_step : c.SameSize (c.step op).2 := by
  by_cases receives : op.isReceive = true
  · rw [(step_of_receive op c receives).2]
    exact (sameSize_drainUpTo _ c).1
  · cases op with
    | emit worker s =>
      simp only [step, emit]
      split
      · split
        · exact ⟨List.length_set, rfl⟩
        · exact ⟨rfl, rfl⟩
      · exact ⟨rfl, rfl⟩
    | dropEmitter => exact ⟨rfl, rfl⟩
    | dropStream => exact ⟨List.length_map _, rfl⟩
    | _ => exact absurd rfl receives

theorem emitterOpen_step :
    (c.step op).2.emitterOpen = (c.emitterOpen && decide (op ≠ .dropEmitter)) := by
  by_cases receives : op.isReceive = true
  · rw [(step_of_receive op c receives).2, (sameSize_drainUpTo _ c).2]
    cases op <;> first | cases receives; done | simp
  · cases op with
    | emit worker s =>
      simp only [step, emit]
      split
      · split <;> simp
      · simp
    | dropEmitter => simp [step, dropEmitter]
    | dropStream => simp [step, dropStream]
    | _ => exact absurd rfl receives

theorem streamOpen_step :
    (c.step op).2.streamOpen = (c.streamOpen && decide (op ≠ .dropStream)) := by
  by_cases receives : op.isReceive = true
  · rw [(step_of_receive op c receives).2, (drainUpTo_spec _ c).2]
    cases op <;> first | cases receives; done | simp
  · cases op with
    | emit worker s =>
      simp only [step]
      split
      · simp [streamOpen_emit]
      · simp
    | dropEmitter => simp [step, dropEmitter]
    | dropStream => simp [step, dropStream]
    | _ => exact absurd rfl receives

end Step

/-! ### Whole runs -/

section Run

variable (ops : List Op) (c : Channel)

theorem fst_run_cons (op : Op) (ops : List Op) (c : Channel) :
    (run (op :: ops) c).1 = (c.step op).1 :: (run ops (c.step op).2).1 :=
  rfl

theorem snd_run_cons (op : Op) (ops : List Op) (c : Channel) :
    (run (op :: ops) c).2 = (run ops (c.step op).2).2 :=
  rfl

theorem run_append (ops later : List Op) (c : Channel) :
    (run (ops ++ later) c).2 = (run later (run ops c).2).2 := by
  induction ops generalizing c with
  | nil => rfl
  | cons op ops ih => exact ih (c.step op).2

theorem acceptedOn_append (i : Nat) (ops later : List Op) (c : Channel) :
    acceptedOn i (ops ++ later) c = acceptedOn i ops c ++ acceptedOn i later (run ops c).2 := by
  induction ops generalizing c with
  | nil => rfl
  | cons op ops ih =>
    rw [List.cons_append, acceptedOn, ih, acceptedOn, List.append_assoc]
    rfl

theorem sameSize_run : c.SameSize (run ops c).2 := by
  induction ops generalizing c with
  | nil => exact ⟨rfl, rfl⟩
  | cons op ops ih =>
    obtain ⟨length, capacity⟩ := ih (c.step op).2
    obtain ⟨length', capacity'⟩ := sameSize_step op c
    exact ⟨length.trans length', capacity.trans capacity'⟩

theorem emitterOpen_run :
    (run ops c).2.emitterOpen = (c.emitterOpen && decide (.dropEmitter ∉ ops)) := by
  induction ops generalizing c with
  | nil => simp [run]
  | cons op ops ih =>
    rw [snd_run_cons, ih, emitterOpen_step, Bool.and_assoc]
    simp [eq_comm]

theorem streamOpen_run :
    (run ops c).2.streamOpen = (c.streamOpen && decide (.dropStream ∉ ops)) := by
  induction ops generalizing c with
  | nil => simp [run]
  | cons op ops ih =>
    rw [snd_run_cons, ih, streamOpen_step, Bool.and_assoc]
    simp [eq_comm]

theorem signals_run : (run ops c).1.flatMap Answer.signals = (deliveries ops c).map (·.2) := by
  induction ops generalizing c with
  | nil => rfl
  | cons op ops ih =>
    rw [deliveries, List.map_append, ← signals_step, ← ih]
    rfl

/-- What a slot held and has accepted is what was received from it and what it still holds. -/
theorem conserves_run {ops : List Op} (kept : .dropStream ∉ ops) (c : Channel) (i : Nat) :
    c.queue i ++ acceptedOn i ops c = receivedFrom i ops c ++ (run ops c).2.queue i := by
  induction ops generalizing c with
  | nil => simp [acceptedOn, receivedFrom, deliveries, run]
  | cons op ops ih =>
    rw [List.mem_cons, not_or] at kept
    calc c.queue i ++ acceptedOn i (op :: ops) c
        = (c.queue i ++ op.accepted i c) ++ acceptedOn i ops (c.step op).2 := by
          rw [acceptedOn, List.append_assoc]
      _ = ((c.takeUpTo (op.limit c)).filter (·.1 = i)).map (·.2) ++
            ((c.step op).2.queue i ++ acceptedOn i ops (c.step op).2) := by
          rw [conserves_step op c (Ne.symm kept.1), List.append_assoc]
      _ = receivedFrom i (op :: ops) c ++ (run (op :: ops) c).2.queue i := by
          rw [ih kept.2, ← List.append_assoc, receivedFrom, receivedFrom, deliveries,
            List.filter_append, List.map_append]
          rfl

end Run

/-! ### Receiving everything -/

theorem pending_step_of_receive {op : Op} (receives : op.isReceive = true) {c : Channel}
    (isOpen : c.streamOpen = true) :
    (c.step op).2.pending ≤ c.pending - 1 ∧ (op = .drain → (c.step op).2.pending = 0) := by
  rw [(step_of_receive op c receives).2, pending_drainUpTo]
  cases op with
  | drain => simp [Op.limit, isOpen]
  | emit worker s => cases receives
  | dropEmitter => cases receives
  | dropStream => cases receives
  | _ => simp [Op.limit, isOpen]

/-- As many receives as there are signals, or a single drain, leave nothing behind. -/
theorem pending_run_of_receives {later : List Op} (receives : ∀ op ∈ later, op.isReceive = true)
    {c : Channel} (isOpen : c.streamOpen = true)
    (enough : c.pending ≤ later.length ∨ .drain ∈ later) : (run later c).2.pending = 0 := by
  induction later generalizing c with
  | nil => simpa [run] using enough
  | cons op later ih =>
    obtain ⟨fewer, drained⟩ := pending_step_of_receive (receives op List.mem_cons_self) isOpen
    have still : (c.step op).2.streamOpen = true := by
      have kept : op ≠ .dropStream := by
        rintro rfl
        cases receives _ List.mem_cons_self
      simp [streamOpen_step, isOpen, kept]
    rw [snd_run_cons]
    refine ih (fun op inside => receives op (List.mem_cons_of_mem _ inside)) still ?_
    rcases enough with few | inside
    · left
      rw [List.length_cons] at few
      omega
    · rcases List.mem_cons.1 inside with rfl | inside
      · left
        rw [drained rfl]
        exact Nat.zero_le _
      · exact .inr inside

theorem acceptedOn_of_receives {later : List Op} (receives : ∀ op ∈ later, op.isReceive = true)
    (c : Channel) (i : Nat) : acceptedOn i later c = [] := by
  induction later generalizing c with
  | nil => rfl
  | cons op later ih =>
    have nothing : op.accepted i c = [] := by
      cases op with
      | emit worker s => cases receives _ List.mem_cons_self
      | _ => rfl
    rw [acceptedOn, nothing, ih fun op inside => receives op (List.mem_cons_of_mem _ inside)]
    rfl

/-! ### What polling tells -/

/-- Polling tells of a channel that holds nothing whether anything can still come. -/
theorem answer_poll {c : Channel} (isOpen : c.streamOpen = true) :
    ((c.step .poll).1 = .polled .ended ↔ c.emitterOpen = false ∧ ∀ i, c.queue i = []) ∧
      ((c.step .poll).1 = .polled .pending ↔ c.emitterOpen = true ∧ ∀ i, c.queue i = []) := by
  simp only [step, receive, isOpen, if_true, poll_eq, forall_queue_eq_nil_iff,
    ← tryRecv_eq_none_iff]
  rcases c.tryRecv with _ | ⟨s, after⟩
  · cases c.emitterOpen <;> simp
  · simp

/-- A channel neither loses nor doubles nor reorders.  Whatever was done to it, an emission is
accepted exactly if the stream is there and the slot of the worker has room.  The answers give out
what was taken from the slots; what was received from a slot, followed by what it still holds, is
what it accepted.  As many receives as there are signals, or a single drain, bring out all that was
accepted, also when the emitter is gone; and only then polling says that it has ended. -/
theorem delivers_all_in_order (slots capacity : Nat) (ops : List Op) :
    let start := new slots capacity
    let c := (run ops start).2
    (∀ worker s, (c.step (.emit worker s)).1 =
      if .dropEmitter ∈ ops then .gone
      else .accepted (.dropStream ∉ ops ∧
        (c.queue (worker % max 1 slots)).length < max 1 capacity)) ∧
    (run ops start).1.flatMap Answer.signals = (deliveries ops start).map (·.2) ∧
    (.dropStream ∉ ops →
      (∀ i, receivedFrom i ops start ++ c.queue i = acceptedOn i ops start) ∧
      (∀ later, (∀ op ∈ later, op.isReceive = true) →
        c.pending ≤ later.length ∨ .drain ∈ later →
          ∀ i, receivedFrom i (ops ++ later) start = acceptedOn i ops start) ∧
      ((c.step .poll).1 = .polled .ended ↔ .dropEmitter ∈ ops ∧ ∀ i, c.queue i = []) ∧
      ((c.step .poll).1 = .polled .pending ↔ .dropEmitter ∉ ops ∧ ∀ i, c.queue i = [])) := by
  intro start c
  have emitter : c.emitterOpen = decide (.dropEmitter ∉ ops) := emitterOpen_run ops start
  have stream : c.streamOpen = decide (.dropStream ∉ ops) := streamOpen_run ops start
  have length : c.slots.length = max 1 slots :=
    (sameSize_run ops start).1.trans List.length_replicate
  have room : c.capacity = max 1 capacity := (sameSize_run ops start).2
  have empty : ∀ i, start.queue i = [] :=
    forall_queue_of_pending (by simp [start, new, pending])
  refine ⟨fun worker s => ?_, signals_run ops start, fun kept => ?_⟩
  · rw [answer_emit, accepts, length, room, emitter, stream]
    by_cases gone : .dropEmitter ∈ ops <;> simp [gone]
  have isOpen : c.streamOpen = true := by simp [stream, kept]
  have conserved := fun i => conserves_run kept start i
  simp only [empty, List.nil_append] at conserved
  obtain ⟨ended, pending⟩ := answer_poll isOpen
  refine ⟨fun i => (conserved i).symm, fun later receives enough i => ?_, ?_, ?_⟩
  · have drained : (run (ops ++ later) start).2.queue i = [] := by
      rw [run_append]
      exact forall_queue_of_pending (pending_run_of_receives receives isOpen enough) i
    have still : .dropStream ∉ ops ++ later := by
      rw [List.mem_append, not_or]
      refine ⟨kept, fun inside => ?_⟩
      cases receives _ inside
    have total := conserves_run still start i
    rw [empty, drained, List.append_nil, List.nil_append, acceptedOn_append,
      acceptedOn_of_receives receives, List.append_nil] at total
    exact total.symm
  · rw [ended, emitter]
    simp
  · rw [pending, emitter]
    simp

end ScaleWatch.Channel
