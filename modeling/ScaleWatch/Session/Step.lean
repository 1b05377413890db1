import ScaleWatch.Http.Api
import ScaleWatch.Session.Turns

/-!
# Steps of a session

What can be done to a session from outside, and what it answers. After every step the session is
settled, so between two steps no signal is queued while the consumer runs, and no timer is due.
-/

namespace ScaleWatch.Session

inductive Step where
  /-- Operations on the monitor, one after the other without a pause. -/
  | monitor (ops : List Monitor.Op)
  | advance (milliseconds : Nat)
  /-- Stop the consumer, which closes the stream it reads. -/
  | shutdown
  | lines (input : List UInt8)
  | http (request : Http.Request)

inductive Answer where
  | monitor (answers : List Monitor.Answer)
  | done
  | running (b : Bool)
  /-- The octets read and the events among them. -/
  | read (octets events : Nat)
  | response (r : Http.Response)

/-- The answer to an operation on the stream when a consumer keeps the stream to itself, even after
it has stopped: there is none to receive from and none to drop. -/
def answerWithoutStream? : Monitor.Op → Option Monitor.Answer
  | .tryRecv | .poll | .drain => some .noStream
  | .dropStream => some (.flag false)
  | _ => none

def operate (op : Monitor.Op) (s : Session) : Monitor.Answer × Session :=
  match s.consumer.bind fun _ => answerWithoutStream? op with
  | some a => (a, s)
  | none =>
    let (a, monitor) := s.monitor.step op
    (a, { s with monitor })

def operateAll : List Monitor.Op → Session → List Monitor.Answer × Session
  | [], s => ([], s)
  | op :: ops, s =>
    let (a, s) := s.operate op
    let (answers, s) := operateAll ops s
    (a :: answers, s)

def stop (s : Session) : Session :=
  match s.consumer with
  | none => s
  | some c =>
    { s with
      consumer := some { c with running := false }
      monitor := { s.monitor with channel := s.monitor.channel.dropStream } }

/-- What a step does before the session is settled, with the signals printed on the way. -/
def act (step : Step) (s : Session) : Answer × List Signal × Session :=
  match step with
  | .monitor ops =>
    let (answers, s) := s.operateAll ops
    (.monitor answers, [], s)
  | .advance milliseconds => (.done, [], { s with now := s.now + milliseconds })
  | .shutdown => (.running s.stop.isConsuming, [], s.stop)
  | .lines input =>
    let (signals, s) := s.ingest (Ingest.readable (Ingest.lines input))
    (.read (Ingest.octetsRead (Ingest.lines input)) (Ingest.events input).length, signals, s)
  | .http request =>
    let (response, monitor) := Http.handle worker request s.monitor
    (.response response, [], { s with monitor })

/-- A step and all that follows from it: the answer, the signals printed, and the session. -/
def step (st : Step) (s : Session) : Answer × List Signal × Session :=
  let (answer, before, s) := s.act st
  let (after, s) := s.settle
  (answer, before ++ after, s)

end ScaleWatch.Session
