import ScaleWatch.Monitor
import ScaleWatch.Wire

/-!
# Sessions: a monitor, its consumer and a clock

A daemon's signals are taken by a consumer, which prints each one and, if it is given a delay,
releases the key's gate that long afterwards. A later signal of the same key starts the delay
anew: each signal has a generation, and a timer that wakes for a generation that is no longer the
newest does nothing. Time is a number that moves only when it is advanced. A session is settled
when the consumer has taken all signals there are and all timers that are due have fired.
-/

namespace ScaleWatch

/-- A release of a key's gate that is waiting for its time. -/
structure Timer where
  key : Key
  generation : Nat
  due : Nat
  deriving DecidableEq

structure Consumer where
  /-- The time from taking a signal to releasing its key's gate, in milliseconds. -/
  delay : Option Nat
  running : Bool
  /-- The newest generation of each key that has a release waiting. -/
  generations : Key → Option Nat

structure Session where
  /-- The time, in milliseconds. -/
  now : Nat
  monitor : Monitor
  consumer : Option Consumer
  /-- Timers that have not fired, oldest first. -/
  timers : List Timer

/-- The longest delay there is, thirty years of 365 days; a longer one is taken for this. -/
def Consumer.maxDelay : Nat :=
  30 * 365 * 24 * 60 * 60 * 1000

/-- The line that is printed for a signal. -/
def Signal.line (s : Signal) : String :=
  s.toJson.text

namespace Session

/-- A session at time zero, with or without a consumer. -/
def new (m : Monitor) (consumed : Bool) (delay : Option Nat) : Session where
  now := 0
  monitor := m
  consumer :=
    if consumed then some ⟨delay.map (min · Consumer.maxDelay), true, fun _ => none⟩ else none
  timers := []

/-! ### Taking signals -/

/-- Schedule the release of a key's gate, if the consumer has a delay; whatever was scheduled for
the key before is superseded. -/
def schedule (k : Key) (s : Session) : Session :=
  match s.consumer with
  | some ⟨some delay, running, generations⟩ =>
    let generation := (generations k).getD 0 + 1
    { s with
      consumer := some ⟨some delay, running,
        fun k' => if k' = k then some generation else generations k'⟩
      timers := s.timers ++ [⟨k, generation, s.now + delay⟩] }
  | _ => s

/-- Take signals until none is ready, at most `limit`. -/
def consumeUpTo : Nat → Session → List Signal × Session
  | 0, s => ([], s)
  | limit + 1, s =>
    match s.monitor.channel.poll with
    | (.ready signal, channel) =>
      let s := { s with monitor := { s.monitor with channel } }
      let (signals, s) := consumeUpTo limit (s.schedule signal.key)
      (signal :: signals, s)
    | _ => ([], s)

def isConsuming (s : Session) : Bool :=
  s.consumer.any (·.running)

/-- Let the consumer take what is queued, if it runs. -/
def consume (s : Session) : List Signal × Session :=
  if s.isConsuming then consumeUpTo s.monitor.channel.pending s else ([], s)

/-! ### Timers -/

/-- Fire a timer: release the gate of its key, unless a newer signal owns it or it is gone. -/
def fire (t : Timer) (s : Session) : Session :=
  match s.consumer with
  | none => s
  | some c =>
    if c.generations t.key = some t.generation then
      { s with
        consumer := some { c with
          generations := fun k => if k = t.key then none else c.generations k }
        monitor := (s.monitor.clearGate t.key).2 }
    else s

/-- Fire the oldest of the timers whose time has come, if there is one. -/
def fireOldest (s : Session) : Session :=
  match s.timers.find? (·.due ≤ s.now) with
  | some t => fire t { s with timers := s.timers.erase t }
  | none => s

/-- Fire the timers whose time has come. -/
def fireDue (s : Session) : Session :=
  let due := s.timers.filter (·.due ≤ s.now)
  due.foldl (fun s t => fire t s) { s with timers := s.timers.filter (s.now < ·.due) }

/-- Let the consumer and then the timers have their turn. -/
def settle (s : Session) : List Signal × Session :=
  let (signals, s) := s.consume
  (signals, s.fireDue)

end Session

end ScaleWatch
