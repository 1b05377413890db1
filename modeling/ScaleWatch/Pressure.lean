import ScaleWatch.Bounds
import ScaleWatch.Tcp

/-!
# The pressure on one key

A key carries the number of its live connections, the length of its current run of events out of
band, and a gate. `Pressure.apply` moves the count; `Pressure.evaluate` judges a count: in band it
ends the run, out of band it lengthens the run, and a run as long as the bounds ask for is a
signal. A held gate suppresses all of this.
-/

namespace ScaleWatch

structure Pressure where
  /-- Live connections, never below zero. -/
  count : UInt32
  /-- Events out of band in a row. -/
  run : UInt32
  /-- Held from a latched signal until it is cleared. -/
  gated : Bool
  deriving DecidableEq

namespace Pressure

def zero : Pressure := ⟨0, 0, false⟩

/-- The next number, or the same at the top of the range. -/
def successor (n : UInt32) : UInt32 :=
  if n.toNat + 1 < UInt32.size then n + 1 else n

/-- The previous number, or zero. -/
def predecessor (n : UInt32) : UInt32 :=
  if n = 0 then 0 else n - 1

/-- The pressure after a transition; a close with no open connection changes nothing. -/
def apply (t : Transition) (p : Pressure) : Pressure :=
  match t with
  | .established => { p with count := successor p.count }
  | .closed => { p with count := predecessor p.count }

/-- Judge a count: the signal that fires, if one does, and the pressure afterwards. -/
def evaluate (policy : GatePolicy) (b : Bounds) (count : UInt32) (p : Pressure) :
    Option Direction × Pressure :=
  if p.gated then (none, p)
  else if b.outOfBand count then
    if b.bufferLength ≤ successor p.run then
      (some (b.direction count), { p with run := 0, gated := policy = .latched })
    else (none, { p with run := p.run + 1 })
  else (none, { p with run := 0 })

/-- Release the gate; the answer is whether it was held. -/
def clearGate (p : Pressure) : Bool × Pressure :=
  (p.gated, { p with gated := false })

/-! ### Steps -/

/-- What can happen to the pressure on a key. -/
inductive Step where
  | apply (t : Transition)
  | evaluate (policy : GatePolicy) (b : Bounds) (count : UInt32)
  | clearGate

inductive Answer where
  /-- The count after a transition. -/
  | count (n : UInt32)
  /-- What an evaluation fired, if it did. -/
  | signal (fired : Option Direction)
  | wasHeld (held : Bool)
  deriving DecidableEq

def step : Step → Pressure → Answer × Pressure
  | .apply t, p => (.count (p.apply t).count, p.apply t)
  | .evaluate policy b count, p =>
    let (fired, after) := p.evaluate policy b count
    (.signal fired, after)
  | .clearGate, p =>
    let (held, after) := p.clearGate
    (.wasHeld held, after)

end Pressure

end ScaleWatch
