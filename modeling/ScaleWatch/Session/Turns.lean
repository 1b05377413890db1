import ScaleWatch.Ingest
import ScaleWatch.Session

/-!
# Taking turns

A long input is not ingested in one go: ingestion, the consumer and the releases it schedules take
turns, so that none of them keeps the others waiting. A turn is over when there is nothing left to
do or a fixed amount of work is done. In the latter case the activity yields and is put behind all
others, but only when a round of turns is over. So whether a full channel drops a signal, or a gate
is released before the next event of its key, hangs on the order of turns, which is made here.
-/

namespace ScaleWatch.Session

/-- What takes turns while lines are ingested. -/
inductive Activity where
  | ingest
  | consume
  /-- A release that was scheduled: it is done at once if it is due, and otherwise waits. -/
  | release
  deriving DecidableEq

structure Turns where
  session : Session
  /-- The lines that have not been ingested. -/
  lines : List (List Char)
  /-- The activities that will have a turn in this round, next one first. -/
  ready : List Activity
  /-- The activities that have yielded in this round, last one first. -/
  yielded : List Activity
  /-- Whether the consumer waits for a signal. -/
  listening : Bool

/-- The one worker of a session. -/
def worker : Nat := 0

/-- The work of one turn: a line, a signal and the scheduling of a release are one unit each. -/
def unitsPerTurn : Nat := 128

def turnsPerRound : Nat := 61

/-- The number of signals that the consumer takes in one turn. -/
def signalsPerTurn (s : Session) : Nat :=
  if s.consumer.any (·.delay.isSome) then unitsPerTurn / 2 else unitsPerTurn

namespace Turns

/-- Let an activity go on in the next round if it has done the work of a turn. -/
def yieldIf (done : Bool) (a : Activity) (t : Turns) : Turns :=
  if done then { t with yielded := a :: t.yielded } else t

/-- Make the consumer ready if it waits for a signal and there is one. -/
def wake (t : Turns) : Turns :=
  if t.listening && 0 < t.session.monitor.channel.pending then
    { t with ready := t.ready ++ [.consume], listening := false }
  else t

/-- Ingest lines for one turn; blank lines and lines that are no event take their time, too. -/
def ingest (t : Turns) : Turns :=
  let lines := t.lines.take unitsPerTurn
  let monitor := Ingest.feed worker (lines.filterMap Ingest.eventOf?) t.session.monitor
  wake { t with session := { t.session with monitor }, lines := t.lines.drop unitsPerTurn }
    |>.yieldIf (lines.length = unitsPerTurn) .ingest

/-- Take signals for one turn; each release that is scheduled becomes ready. -/
def consume (t : Turns) : List Signal × Turns :=
  let limit := t.session.signalsPerTurn
  let (signals, session) := consumeUpTo limit t.session
  let releases :=
    if session.consumer.any (·.delay.isSome) then signals.map fun _ => Activity.release else []
  let isDone : Bool := signals.length = limit
  (signals, { t with session, ready := t.ready ++ releases, listening := !isDone }
    |>.yieldIf isDone .consume)

/-- Give an activity its turn. -/
def take : Activity → Turns → List Signal × Turns
  | .ingest, t => ([], t.ingest)
  | .consume, t => t.consume
  | .release, t => ([], { t with session := t.session.fireOldest })

/-- Give at most `limit` turns, in order. -/
def takeUpTo : Nat → Turns → List Signal × Turns
  | 0, t => ([], t)
  | limit + 1, t =>
    match t.ready with
    | [] => ([], t)
    | a :: ready =>
      let (signals, t) := take a { t with ready }
      let (later, t) := takeUpTo limit t
      (signals ++ later, t)

/-- Begin a new round: what has yielded is ready again. -/
def renew (t : Turns) : Turns :=
  { t with ready := t.ready ++ t.yielded, yielded := [] }

/-- Give rounds of turns until nothing is ready, at most `limit`. -/
def rounds : Nat → Turns → List Signal × Turns
  | 0, t => ([], t)
  | limit + 1, t =>
    if t.ready.isEmpty then ([], t)
    else
      let (signals, t) := t.takeUpTo turnsPerRound
      let (later, t) := rounds limit t.renew
      (signals ++ later, t)

end Turns

/-- Ingest lines in order, with the signals printed on the way. A line and a signal that is queued
lead to two turns at most, and a round has at least one. -/
def ingest (lines : List (List Char)) (s : Session) : List Signal × Session :=
  let (signals, t) := Turns.rounds (2 * (lines.length + s.monitor.channel.pending + 1))
    ⟨s, lines, [.ingest], [], s.isConsuming⟩
  (signals, t.session)

end ScaleWatch.Session
