import ScaleWatch.Metrics
import ScaleWatch.Registry

/-!
# Text exposition of metrics

Scrapers read metrics as lines of text: for every family a line of help, a line with its type, and
its samples. Each counter is one sample; each watched key is one sample, labelled with the key, in
each of three gauges.
-/

namespace ScaleWatch.Exposition

open Text

/-- A family of samples. -/
structure Family where
  name : String
  help : String
  kind : String
  /-- The samples: the key that labels one, if it has a label, and its value. -/
  samples : List (Option Key × Nat)

def counter (name help : String) (value : UInt64) : Family :=
  ⟨name, help, "counter", [(none, value.toNat)]⟩

def gauge (name help : String) (value : Pressure → Nat) (keys : List Stats) : Family :=
  ⟨name, help, "gauge", keys.map fun (k, p) => (some k, value p)⟩

/-- The families in the order in which they are written. -/
def families (m : Metrics) (keys : List Stats) : List Family :=
  [counter "connscale_events_processed_total"
      "Qualifying transitions applied to a watched key." m.eventsProcessed,
    counter "connscale_events_ignored_total"
      "Records whose TCP state was not a qualifying transition." m.eventsIgnored,
    counter "connscale_events_unwatched_total"
      "Qualifying transitions for unregistered keys." m.eventsUnwatched,
    counter "connscale_events_unconfigured_total"
      "Transitions dropped because thresholds were unset or inconsistent." m.eventsUnconfigured,
    counter "connscale_signals_emitted_total"
      "Scale signals delivered to the output channel." m.signalsEmitted,
    counter "connscale_signals_dropped_total"
      "Scale signals dropped on a full or closed output slot." m.signalsDropped,
    counter "connscale_registrations_rejected_total"
      "Key registrations refused because the registry was full." m.registrationsRejected,
    gauge "connscale_connections" "Live established connections per key."
      (·.count.toNat) keys,
    gauge "connscale_hysteresis" "Consecutive out-of-band events per key."
      (·.run.toNat) keys,
    gauge "connscale_gate_held" "Whether the key's scaling gate is held (0/1)."
      (·.gated.toNat) keys]

/-- The label that names a key. -/
def label : Option Key → List Char
  | none => []
  | some k => "\x7bkey=\"".toList ++ k.chars ++ "\"\x7d".toList

def sampleLine (name : String) (sample : Option Key × Nat) : List Char :=
  name.toList ++ label sample.1 ++ ' ' :: Numeral.digits sample.2 ++ ['\n']

def Family.chars (f : Family) : List Char :=
  ("# HELP " ++ f.name ++ " " ++ f.help ++ "\n").toList ++
    ("# TYPE " ++ f.name ++ " " ++ f.kind ++ "\n").toList ++
    f.samples.flatMap (sampleLine f.name)

def chars (m : Metrics) (keys : List Stats) : List Char :=
  (families m keys).flatMap Family.chars

def text (m : Metrics) (keys : List Stats) : String :=
  String.ofList (chars m keys)

end ScaleWatch.Exposition
