import ScaleWatch.Key

/-!
# TCP states and what they say about a connection

Observers report the state that a socket has entered. Only three of the kernel's states move a
connection count: ESTABLISHED opens a connection, CLOSE and CLOSE_WAIT end one. The observation
points differ only in where they find the key; `Observation.transition?` makes them alike.
-/

namespace ScaleWatch

/-- A transition that moves the count of live connections. -/
inductive Transition where
  | established
  | closed
  deriving DecidableEq

namespace Tcp

/-- The kernel's socket states. -/
inductive State where
  | established
  | synSent
  | synRecv
  | finWait1
  | finWait2
  | timeWait
  | close
  | closeWait
  | lastAck
  | listen
  | closing
  | newSynRecv
  deriving DecidableEq

/-- The state with the kernel's number `code`; they are numbered from 1. -/
def State.ofCode? (code : UInt8) : Option State :=
  match code.toNat with
  | 1 => some .established
  | 2 => some .synSent
  | 3 => some .synRecv
  | 4 => some .finWait1
  | 5 => some .finWait2
  | 6 => some .timeWait
  | 7 => some .close
  | 8 => some .closeWait
  | 9 => some .lastAck
  | 10 => some .listen
  | 11 => some .closing
  | 12 => some .newSynRecv
  | _ => none

def State.name : State → String
  | established => "Established"
  | synSent => "SynSent"
  | synRecv => "SynRecv"
  | finWait1 => "FinWait1"
  | finWait2 => "FinWait2"
  | timeWait => "TimeWait"
  | close => "Close"
  | closeWait => "CloseWait"
  | lastAck => "LastAck"
  | listen => "Listen"
  | closing => "Closing"
  | newSynRecv => "NewSynRecv"

def State.transition? : State → Option Transition
  | established => some .established
  | close | closeWait => some .closed
  | _ => none

/-- What the kernel's number of a state says about the count. -/
def classify (code : UInt8) : Option Transition :=
  (State.ofCode? code).bind State.transition?

end Tcp

/-! ### Observations -/

/-- A socket state reported by an observer that has found the key already. -/
structure Event where
  key : Key
  state : UInt8
  deriving DecidableEq

/-- A socket entering a state, as one of the observation points reports it. -/
inductive Observation where
  /-- A probe inside a network namespace. -/
  | socket (netns : UInt32) (state : UInt8)
  /-- The kernel's trace point on state changes, which knows the destination port. -/
  | tracepoint (port : UInt16) (state : UInt8)
  | event (e : Event)
  deriving DecidableEq

namespace Observation

def key : Observation → Key
  | socket netns _ => .netns netns
  | tracepoint port _ => .port port
  | event e => e.key

def state : Observation → UInt8
  | socket _ state | tracepoint _ state => state
  | event e => e.state

/-- The key and its transition, if the state entered is one that counts. -/
def transition? (o : Observation) : Option (Key × Transition) :=
  (Tcp.classify o.state).map (o.key, ·)

end Observation

end ScaleWatch
