import ScaleWatch.Config.Writing
import ScaleWatch.Daemon.CommandLine
import ScaleWatch.Session

/-!
# Start-up

A daemon that is started loads its configuration, builds its monitor, watches the keys that the
configuration lists and opens the port of its control surface. What it does on the way it reports
in notices, and the first thing that goes wrong ends it. The surroundings of the daemon are an
`Environment`, so start-up is a function.
-/

namespace ScaleWatch.Daemon

/-! ### Notices -/

inductive Notice where
  | starting
  | thresholdsLoaded (b : Bounds)
  | noThresholds
  | monitorReady (c : Config)
  | apiStarting (port : UInt16)

inductive Level where
  | info
  | warn
  deriving DecidableEq

def Level.name : Level → String
  | info => "INFO"
  | warn => "WARN"

namespace Notice

def level : Notice → Level
  | noThresholds => .warn
  | _ => .info

def message : Notice → String
  | starting => "connscale daemon starting"
  | thresholdsLoaded _ => "thresholds loaded"
  | noThresholds => "no thresholds configured, events are ignored until set via the API"
  | monitorReady _ => "monitor initialized"
  | apiStarting _ => "API server starting"

/-- How a gate policy is called in notices. -/
def policyLabel : GatePolicy → String
  | .latched => "Latched"
  | .ungated => "Ungated"

/-- What a notice says beside its message. -/
def details : Notice → List (String × Json)
  | thresholdsLoaded b =>
    [("lower_limit", .number b.lower.toNat), ("upper_limit", .number b.upper.toNat),
      ("buffer_length", .number b.bufferLength.toNat)]
  | monitorReady c =>
    [("keys", .number c.keys.length), ("gate", .ofText (policyLabel c.policy)),
      ("max_keys", .number c.maxKeys.toNat), ("signal_slots", .number c.signalSlots.toNat)]
  | apiStarting port => [("addr", .ofText ("0.0.0.0:" ++ port.toNat.repr))]
  | starting | noThresholds => []

def fields (n : Notice) : List (String × Json) :=
  ("message", .ofText n.message) :: n.details

/-- The line that is logged for a notice. -/
def line : LogFormat → Notice → String
  | .json, n => (Json.object [("level", .ofText n.level.name), ("fields", .object n.fields)]).text
  | .text, n =>
    n.level.name ++ " " ++ n.message ++
      String.join (n.details.map fun (name, v) => " " ++ name ++ "=" ++ v.text)

end Notice

/-! ### Surroundings and faults -/

/-- Why a port cannot be opened. -/
inductive PortFault where
  | inUse
  | permissionDenied
  deriving DecidableEq

def PortFault.message : PortFault → String
  | inUse => "Address already in use (os error 98)"
  | permissionDenied => "Permission denied (os error 13)"

structure Environment where
  /-- The number of processing units. -/
  units : UInt64
  /-- What reading the file at a path gives. -/
  file : String → Except FileFault (List UInt8)
  /-- What opening a port gives. -/
  bind : UInt16 → Except PortFault Unit

inductive StartFault where
  | loading (path : String) (cause : Config.LoadFault)
  | setting (fault : Fault)
  | preRegistering (key : Key) (cause : Fault)
  | binding (fault : PortFault)
  /-- The configuration asks for a channel that is too large. -/
  | oversized
  /-- The starter configuration cannot be written. -/
  | unwritable

namespace StartFault

def message : StartFault → String
  | loading path _ => "loading " ++ path
  | setting fault => fault.message
  | preRegistering key _ => "pre-registering " ++ key.text
  | binding fault => fault.message
  | oversized => "no signal channel is as large as that"
  | unwritable => "a size is too large to be written"

def cause? : StartFault → Option String
  | loading _ cause => some cause.message
  | preRegistering _ cause => some cause.message
  | setting _ | binding _ | oversized | unwritable => none

/-- The exit code of a program that fails so. A channel that is too large is found only when it is
being built, and the program is then given up instead of ending in order. -/
def exitCode : StartFault → UInt8
  | oversized => 101
  | _ => 1

end StartFault

/-! ### Steps of start-up -/

/-- A step of start-up, which may report notices and may fail. -/
abbrev Boot := ExceptT StartFault (StateM (List Notice))

namespace Boot

def report (n : Notice) : Boot Unit :=
  modify (· ++ [n])

def ofExcept (f : ε → StartFault) : Except ε α → Boot α
  | .ok a => pure a
  | .error e => throw (f e)

/-- The notices of a step in order, and how it ended. -/
def outcome (boot : Boot α) : List Notice × Except StartFault α :=
  let (result, notices) := boot.run []
  (notices, result)

/-- Put the bounds of a configuration in force. -/
def seed (bounds? : Option Bounds) (m : Monitor) : Boot Monitor :=
  match bounds? with
  | some b => do
    report (.thresholdsLoaded b)
    ofExcept .setting (m.store b)
  | none => do
    report .noThresholds
    return m

/-- Watch keys, up to the first for which there is no room. -/
def watchAll : List Key → Monitor → Except StartFault Monitor
  | [], m => .ok m
  | k :: keys, m =>
    match m.register k with
    | (.ok _, m) => watchAll keys m
    | (.error fault, _) => .error (.preRegistering k fault)

/-- Refuse a channel that is too large to be built. -/
def checkChannel (s : Monitor.Settings) : Boot Unit :=
  if Channel.maxSlots < s.signalSlots ∨ Channel.maxCapacity < s.slotCapacity then throw .oversized
  else return

/-- The session that a configuration asks for. -/
def prepare (c : Config) : Boot Session := do
  let delay ← ofExcept .setting c.rearm
  checkChannel c.settings
  let m ← seed c.bounds? (.new c.settings)
  let m ← ofExcept id (watchAll c.keys m)
  report (.monitorReady c)
  return .new m true (delay.map fun d => 1000 * d.seconds.toNat)

def config (env : Environment) : Option String → Boot Config
  | some path => ofExcept (.loading path) (Config.load env.units (env.file path))
  | none => return .default env.units

/-- Everything from the start of the daemon to its open port. -/
def start (env : Environment) (options : RunOptions) : Boot Session := do
  report .starting
  let session ← prepare (← config env options.config?)
  report (.apiStarting options.port)
  ofExcept .binding (env.bind options.port)
  return session

end Boot

/-! ### Launches -/

/-- What comes of starting the program. -/
inductive Launch where
  | usage (fault : UsageFault)
  /-- A text is printed, and that is all. -/
  | printed (text : String)
  | failed (format : LogFormat) (notices : List Notice) (fault : StartFault)
  | serving (format : LogFormat) (notices : List Notice) (options : RunOptions) (session : Session)

/-- The exit code of a program that has ended. -/
def Launch.exitCode? : Launch → Option UInt8
  | usage _ => some 2
  | printed _ => some 0
  | failed _ _ fault => some fault.exitCode
  | serving .. => none

def launchAs (env : Environment) (format : LogFormat) : Request → Launch
  | .help topic => .printed topic.text
  | .scaffold =>
    match (Config.scaffold env.units).text? with
    | some text => .printed text
    | none => .failed format [] .unwritable
  | .run options =>
    match (Boot.start env options).outcome with
    | (notices, .ok session) => .serving format notices options session
    | (notices, .error fault) => .failed format notices fault

/-- Start the program with arguments. -/
def launch (env : Environment) (arguments : List String) : Launch :=
  match Invocation.parse arguments with
  | .error fault => .usage fault
  | .ok i => launchAs env i.logFormat i.request

end ScaleWatch.Daemon
