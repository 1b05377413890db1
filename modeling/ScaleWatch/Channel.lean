import ScaleWatch.Bounds

/-!
# The signal channel

Signals leave through several bounded queues, the slots. A worker always emits to the slot of its
own number, and an emission never waits: a full slot or a stream that is gone drops the signal.
The stream looks at the slots in turn, beginning behind the slot it served last, so no slot is
passed over for ever. It can be asked for a signal without waiting (`tryRecv`), or polled, which
tells an empty channel from one that has ended.
-/

namespace ScaleWatch

/-- A decision to scale one unit. -/
structure Signal where
  key : Key
  direction : Direction
  /-- The buffer length in force when the signal fired. -/
  bufferLength : Option UInt32
  deriving DecidableEq

structure Channel where
  /-- The number of signals that one slot holds. -/
  capacity : Nat
  /-- The slots, each with its oldest signal first. -/
  slots : List (List Signal)
  /-- The slot that is looked at first. -/
  cursor : Nat
  emitterOpen : Bool
  streamOpen : Bool
  cursor_lt : cursor < slots.length

namespace Channel

/-- The largest number of slots for which memory can be asked. -/
def maxSlots : Nat := Nat.pow 2 60 - 1

/-- The largest number of signals that a slot can count. -/
def maxCapacity : Nat := Nat.pow 2 61 - 1

/-- An empty channel; it has at least one slot, and a slot holds at least one signal. -/
def new (slots capacity : Nat) : Channel where
  capacity := max 1 capacity
  slots := List.replicate (max 1 slots) []
  cursor := 0
  emitterOpen := true
  streamOpen := true
  cursor_lt := by simp only [List.length_replicate]; omega

def slotCount (c : Channel) : Nat :=
  c.slots.length

/-- The number of signals in all slots. -/
def pending (c : Channel) : Nat :=
  c.slots.flatten.length

/-! ### Emitting -/

/-- Put a signal into the worker's slot; the answer is whether it was accepted. -/
def emit (worker : Nat) (s : Signal) (c : Channel) : Bool × Channel :=
  let i := worker % c.slots.length
  let queue := c.slots[i]?.getD []
  if c.streamOpen ∧ queue.length < c.capacity then
    (true, { c with
      slots := c.slots.set i (queue ++ [s])
      cursor_lt := by rw [List.length_set]; exact c.cursor_lt })
  else (false, c)

/-! ### Receiving -/

/-- The slot that lies `offset` behind the cursor. -/
def slotAt (offset : Nat) (c : Channel) : Nat :=
  (c.cursor + offset) % c.slots.length

theorem slots_pos (c : Channel) : 0 < c.slots.length :=
  Nat.lt_of_le_of_lt (Nat.zero_le _) c.cursor_lt

/-- The channel after slot `i` was served and keeps `rest`. -/
def served (i : Nat) (rest : List Signal) (c : Channel) : Channel :=
  { c with
    slots := c.slots.set i rest
    cursor := (i + 1) % c.slots.length
    cursor_lt := by rw [List.length_set]; exact Nat.mod_lt _ c.slots_pos }

/-- Take the first signal that is ready, looking at the slots in turn. -/
def tryRecv (c : Channel) : Option (Signal × Channel) :=
  (List.range c.slots.length).findSome? fun offset =>
    match c.slots[c.slotAt offset]? with
    | some (s :: rest) => some (s, c.served (c.slotAt offset) rest)
    | _ => none

/-- What polling a channel can tell. -/
inductive Poll where
  | ready (s : Signal)
  | pending
  /-- Nothing is left and nothing will come. -/
  | ended
  deriving DecidableEq

/-- Poll the slots at the given offsets, when `closed` of those before have ended. -/
def pollAlong (c : Channel) : List Nat → Nat → Poll × Channel
  | [], closed => (if closed = c.slots.length then .ended else .pending, c)
  | offset :: offsets, closed =>
    match c.slots[c.slotAt offset]? with
    | some (s :: rest) => (.ready s, c.served (c.slotAt offset) rest)
    | _ => c.pollAlong offsets (if c.emitterOpen then closed else closed + 1)

def poll (c : Channel) : Poll × Channel :=
  c.pollAlong (List.range c.slots.length) 0

/-- Take signals until none is ready, at most `limit`. -/
def drainUpTo : Nat → Channel → List Signal × Channel
  | 0, c => ([], c)
  | limit + 1, c =>
    match c.tryRecv with
    | none => ([], c)
    | some (s, after) =>
      let (rest, final) := drainUpTo limit after
      (s :: rest, final)

/-- Take everything that is queued. -/
def drain (c : Channel) : List Signal × Channel :=
  drainUpTo c.pending c

/-! ### Closing -/

def dropEmitter (c : Channel) : Channel :=
  { c with emitterOpen := false }

/-- Close the stream; what is still queued is lost. -/
def dropStream (c : Channel) : Channel :=
  { c with
    slots := c.slots.map fun _ => []
    streamOpen := false
    cursor_lt := by rw [List.length_map]; exact c.cursor_lt }

end Channel

end ScaleWatch
