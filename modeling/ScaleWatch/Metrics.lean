/-!
# Monitor metrics

Seven counters tell what became of events, signals and registrations. They are words of 64 bits.
-/

namespace ScaleWatch

structure Metrics where
  /-- Transitions applied to a watched key. -/
  eventsProcessed : UInt64
  /-- Observations of states that do not count. -/
  eventsIgnored : UInt64
  /-- Transitions of keys that nobody registered. -/
  eventsUnwatched : UInt64
  /-- Transitions dropped because no bounds were active. -/
  eventsUnconfigured : UInt64
  signalsEmitted : UInt64
  signalsDropped : UInt64
  registrationsRejected : UInt64
  deriving DecidableEq

namespace Metrics

def zero : Metrics := ⟨0, 0, 0, 0, 0, 0, 0⟩

def countProcessed (m : Metrics) : Metrics :=
  { m with eventsProcessed := m.eventsProcessed + 1 }

def countIgnored (m : Metrics) : Metrics :=
  { m with eventsIgnored := m.eventsIgnored + 1 }

def countUnwatched (m : Metrics) : Metrics :=
  { m with eventsUnwatched := m.eventsUnwatched + 1 }

def countUnconfigured (m : Metrics) : Metrics :=
  { m with eventsUnconfigured := m.eventsUnconfigured + 1 }

/-- Count a signal as emitted or as dropped. -/
def countSignal (accepted : Bool) (m : Metrics) : Metrics :=
  if accepted then { m with signalsEmitted := m.signalsEmitted + 1 }
  else { m with signalsDropped := m.signalsDropped + 1 }

def countRejected (m : Metrics) : Metrics :=
  { m with registrationsRejected := m.registrationsRejected + 1 }

end Metrics

end ScaleWatch
