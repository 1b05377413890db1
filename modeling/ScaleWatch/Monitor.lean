import ScaleWatch.Bounds.Slots
import ScaleWatch.Channel
import ScaleWatch.Metrics.Exposition
import ScaleWatch.Registry

/-!
# The connection monitor

The monitor joins the registry, the threshold slots, the signal channel and the metrics. Every
event is handled on its own and never fails: an event of a key that is not watched, an event while
no bounds are active, and a signal that finds its slot full are counted and dropped.
`Monitor.step` is the monitor as a machine over its operations.
-/

namespace ScaleWatch

structure Monitor where
  registry : Registry
  thresholds : Bounds.Slots
  channel : Channel
  policy : GatePolicy
  metrics : Metrics

namespace Monitor

/-- How large a monitor is and what its signals do to gates. -/
structure Settings where
  policy : GatePolicy
  maxKeys : Nat
  signalSlots : Nat
  slotCapacity : Nat

/-- A monitor that watches nothing and has no bounds yet. -/
def new (s : Settings) : Monitor where
  registry := .empty s.maxKeys
  thresholds := .empty
  channel := .new s.signalSlots s.slotCapacity
  policy := s.policy
  metrics := .zero

/-! ### Control -/

def store (b : Bounds) (m : Monitor) : Except Fault Monitor := do
  let thresholds ← m.thresholds.store b
  return { m with thresholds }

def writeSlot (index : Nat) (value : UInt32) (m : Monitor) : Except Fault Monitor := do
  let thresholds ← m.thresholds.write index value
  return { m with thresholds }

/-- Watch a key; a refusal is counted. -/
def register (k : Key) (m : Monitor) : Except Fault Bool × Monitor :=
  match m.registry.register k with
  | .ok (isNew, registry) => (.ok isNew, { m with registry })
  | .error fault => (.error fault, { m with metrics := m.metrics.countRejected })

def unregister (k : Key) (m : Monitor) : Bool × Monitor :=
  let (was, registry) := m.registry.unregister k
  (was, { m with registry })

def clearGate (k : Key) (m : Monitor) : Except Fault Bool × Monitor :=
  match m.registry.clearGate k with
  | .ok (held, registry) => (.ok held, { m with registry })
  | .error fault => (.error fault, m)

def stats? (k : Key) (m : Monitor) : Option Stats :=
  m.registry.stats? k

def allStats (m : Monitor) : List Stats :=
  m.registry.entries

def exposition (m : Monitor) : String :=
  Exposition.text m.metrics m.allStats

/-! ### Events -/

/-- Move the count of a key without judging it; the answer is the count, if the key is watched. -/
def apply (k : Key) (t : Transition) (m : Monitor) : Option UInt32 × Monitor :=
  match m.registry.update k fun p => ((p.apply t).count, p.apply t) with
  | some (count, registry) => (some count, { m with registry })
  | none => (none, m)

/-- Send a signal from a worker; whether it arrives is only counted. -/
def send (worker : Nat) (s : Signal) (m : Monitor) : Monitor :=
  let (accepted, channel) := m.channel.emit worker s
  { m with channel, metrics := m.metrics.countSignal accepted }

/-- Judge a count of a key, and send the signal that fires. -/
def evaluate (worker : Nat) (k : Key) (b : Bounds) (count : UInt32) (m : Monitor) :
    Option Direction × Monitor :=
  match m.registry.update k (Pressure.evaluate m.policy b count) with
  | none => (none, m)
  | some (none, registry) => (none, { m with registry })
  | some (some direction, registry) =>
    (some direction, { m with registry }.send worker ⟨k, direction, some b.bufferLength⟩)

/-- Handle a transition of a key from end to end. -/
def transition (worker : Nat) (k : Key) (t : Transition) (m : Monitor) :
    Option Direction × Monitor :=
  if m.registry.contains k then
    match m.thresholds.active? with
    | none => (none, { m with metrics := m.metrics.countUnconfigured })
    | some b =>
      match m.apply k t with
      | (some count, m) => { m with metrics := m.metrics.countProcessed }.evaluate worker k b count
      | (none, m) => (none, m)
  else (none, { m with metrics := m.metrics.countUnwatched })

/-- Handle what an observation point reports. -/
def observe (worker : Nat) (o : Observation) (m : Monitor) : Option Direction × Monitor :=
  match o.transition? with
  | some (k, t) => m.transition worker k t
  | none => (none, { m with metrics := m.metrics.countIgnored })

/-! ### Operations -/

inductive Op where
  | store (b : Bounds)
  | writeSlot (index : Nat) (value : UInt32)
  | register (k : Key)
  | unregister (k : Key)
  | clearGate (k : Key)
  | stats (k : Key)
  | apply (k : Key) (t : Transition)
  | evaluate (worker : Nat) (k : Key) (b : Bounds) (count : UInt32)
  | transition (worker : Nat) (k : Key) (t : Transition)
  | observe (worker : Nat) (o : Observation)
  | tryRecv
  | poll
  | drain
  | dropStream

inductive Answer where
  | refused (fault : Fault)
  /-- The slots after a threshold write. -/
  | thresholds (slots : Bounds.Slots)
  | flag (b : Bool)
  | stats (s : Option Stats)
  /-- The count after a transition, if the key is watched. -/
  | count (n : Option UInt32)
  /-- What an event fired, if it did. -/
  | signal (fired : Option Direction)
  | received (s : Option Signal)
  | polled (p : Channel.Poll)
  | drained (signals : List Signal)
  /-- The stream is gone. -/
  | noStream
  deriving DecidableEq

/-- The answer to a threshold write; a refused one changes nothing. -/
def afterWrite (m : Monitor) : Except Fault Monitor → Answer × Monitor
  | .ok m => (.thresholds m.thresholds, m)
  | .error fault => (.refused fault, m)

def flagOrRefusal : Except Fault Bool → Answer
  | .ok b => .flag b
  | .error fault => .refused fault

/-- Receive from the stream, if it is still there. -/
def receive (m : Monitor) (f : Channel → Answer × Channel) : Answer × Monitor :=
  if m.channel.streamOpen then
    let (answer, channel) := f m.channel
    (answer, { m with channel })
  else (.noStream, m)

def step (op : Op) (m : Monitor) : Answer × Monitor :=
  match op with
  | .store b => m.afterWrite (m.store b)
  | .writeSlot index value => m.afterWrite (m.writeSlot index value)
  | .register k =>
    let (result, m) := m.register k
    (flagOrRefusal result, m)
  | .unregister k =>
    let (was, m) := m.unregister k
    (.flag was, m)
  | .clearGate k =>
    let (result, m) := m.clearGate k
    (flagOrRefusal result, m)
  | .stats k => (.stats (m.stats? k), m)
  | .apply k t =>
    let (count, m) := m.apply k t
    (.count count, m)
  | .evaluate worker k b count =>
    let (fired, m) := m.evaluate worker k b count
    (.signal fired, m)
  | .transition worker k t =>
    let (fired, m) := m.transition worker k t
    (.signal fired, m)
  | .observe worker o =>
    let (fired, m) := m.observe worker o
    (.signal fired, m)
  | .tryRecv => m.receive fun c =>
    match c.tryRecv with
    | some (s, c) => (.received (some s), c)
    | none => (.received none, c)
  | .poll => m.receive fun c =>
    let (p, c) := c.poll
    (.polled p, c)
  | .drain => m.receive fun c =>
    let (signals, c) := c.drain
    (.drained signals, c)
  | .dropStream => (.flag m.channel.streamOpen, { m with channel := m.channel.dropStream })

/-- Run operations in order. -/
def run : List Op → Monitor → List Answer × Monitor
  | [], m => ([], m)
  | op :: ops, m =>
    let (answer, m) := m.step op
    let (answers, m) := run ops m
    (answer :: answers, m)

end Monitor

end ScaleWatch
