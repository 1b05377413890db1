import ScaleWatch.Duration
import ScaleWatch.Monitor

/-!
# Configuration

What a daemon is started with. Every part has a default except the bounds, which may be missing,
and the delay after which gates are released, without which they are released only by hand. The
delay is kept as it was written.
-/

namespace ScaleWatch

structure Config where
  bounds? : Option Bounds
  policy : GatePolicy
  maxKeys : UInt64
  signalSlots : UInt64
  slotCapacity : UInt64
  /-- The time from taking a signal to releasing its key's gate. -/
  rearmAfter? : Option String
  /-- The keys to watch from the start; a key may be listed more than once. -/
  keys : List Key
  deriving DecidableEq

namespace Config

/-- The configuration when nothing is given, on a machine with so many processing units. -/
def default (units : UInt64) : Config where
  bounds? := none
  policy := .latched
  maxKeys := 1024
  signalSlots := units
  slotCapacity := 64
  rearmAfter? := none
  keys := []

/-- A configuration to start from, with cautious bounds and a short delay. -/
def scaffold (units : UInt64) : Config :=
  { default units with bounds? := some ⟨2, 10, 3⟩, rearmAfter? := some "5s" }

/-- The delay before a gate is released. -/
def rearm (c : Config) : Except Fault (Option Duration) :=
  match c.rearmAfter? with
  | some text => (Duration.parse text).map some
  | none => .ok none

def checkBounds (c : Config) : Except Fault Unit :=
  match c.bounds? with
  | some b => b.check
  | none => .ok ()

def checkSize (setting : SizeSetting) (n : UInt64) : Except Fault Unit :=
  if n = 0 then .error (.zeroSetting setting) else .ok ()

/-- Refuse what no daemon could be started with; the first fault counts. -/
def check (c : Config) : Except Fault Unit := do
  c.checkBounds
  checkSize .maxKeys c.maxKeys
  checkSize .signalSlots c.signalSlots
  checkSize .slotCapacity c.slotCapacity
  discard c.rearm

def settings (c : Config) : Monitor.Settings where
  policy := c.policy
  maxKeys := c.maxKeys.toNat
  signalSlots := c.signalSlots.toNat
  slotCapacity := c.slotCapacity.toNat

end Config

end ScaleWatch
