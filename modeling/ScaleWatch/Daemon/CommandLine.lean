import ScaleWatch.Text.Numeral

/-!
# The command line

The daemon has two commands, `run` and `scaffold`, and one option that may stand in front of the
command or behind it. Arguments are read from the left; options are written out in full, with
their value behind an equals sign or as the next argument, and none is given twice in one place. A
value that is an argument of its own is judged only when the next option is read or all arguments
are, so asking for help before that is never refused on its account.
-/

namespace ScaleWatch.Daemon

inductive LogFormat where
  | text
  | json
  deriving DecidableEq

def LogFormat.ofName? : String → Option LogFormat
  | "text" => some .text
  | "json" => some .json
  | _ => none

inductive Command where
  | run
  | scaffold
  deriving DecidableEq

def Command.ofName? : String → Option Command
  | "run" => some .run
  | "scaffold" => some .scaffold
  | _ => none

/-- The options that have a value. -/
inductive Parameter where
  | logFormat
  | config
  | port
  deriving DecidableEq

def Parameter.ofName? : String → Option Parameter
  | "log-format" => some .logFormat
  | "config" => some .config
  | "port" => some .port
  | _ => none

def Parameter.name : Parameter → String
  | logFormat => "log-format"
  | config => "config"
  | port => "port"

inductive UsageFault where
  | noCommand
  | unexpected (argument : String)
  | missingValue (parameter : Parameter)
  | invalidValue (parameter : Parameter) (value : String)
  | repeated (name : String)
  deriving DecidableEq

def UsageFault.message : UsageFault → String
  | noCommand => "a command is required: run or scaffold"
  | unexpected argument => "unexpected argument '" ++ argument ++ "'"
  | missingValue parameter => "a value is required for '--" ++ parameter.name ++ "'"
  | invalidValue parameter value =>
    "invalid value '" ++ value ++ "' for '--" ++ parameter.name ++ "'"
  | repeated name => "the argument '--" ++ name ++ "' cannot be used multiple times"

/-! ### Help -/

/-- What help can be asked for. -/
inductive Topic where
  | program
  | command (c : Command)
  /-- The word `help` itself. -/
  | help
  deriving DecidableEq

namespace Topic

def logFormatLine : String :=
  "      --log-format <LOG_FORMAT>  Log output format [default: text] [possible values: text, json]"

def helpLine : String :=
  "  -h, --help                     Print help"

def lines : Topic → List String
  | program =>
    ["connscale daemon",
      "",
      "Usage: connscaled [OPTIONS] <COMMAND>",
      "",
      "Commands:",
      "  run       Run the monitor and its API server",
      "  scaffold  Print a starter connscale.toml",
      "  help      Print this message or the help of the given subcommand(s)",
      "",
      "Options:",
      logFormatLine,
      helpLine]
  | command .run =>
    ["Run the monitor and its API server",
      "",
      "Usage: connscaled run [OPTIONS]",
      "",
      "Options:",
      "      --config <CONFIG>          Path to connscale.toml. Defaults apply when omitted",
      logFormatLine,
      "      --port <PORT>              Port for the REST API [default: 9400]",
      "      --stdin-events             Also read line-delimited JSON events from stdin",
      helpLine]
  | command .scaffold =>
    ["Print a starter connscale.toml",
      "",
      "Usage: connscaled scaffold [OPTIONS]",
      "",
      "Options:",
      logFormatLine,
      helpLine]
  | help =>
    ["Print this message or the help of the given subcommand(s)",
      "",
      "Usage: connscaled help [COMMAND]...",
      "",
      "Arguments:",
      "  [COMMAND]...  Print help for the subcommand(s)"]

/-- The help text, line by line. -/
def text (t : Topic) : String :=
  String.join (t.lines.map (· ++ "\n"))

def ofName? (name : String) : Option Topic :=
  if name = "help" then some help else (Command.ofName? name).map command

end Topic

/-! ### Requests -/

/-- How the daemon is to run. -/
structure RunOptions where
  config? : Option String
  port : UInt16
  /-- Whether events are read from standard input too. -/
  stdinEvents : Bool
  deriving DecidableEq

inductive Request where
  | help (topic : Topic)
  | scaffold
  | run (options : RunOptions)
  deriving DecidableEq

structure Invocation where
  logFormat : LogFormat
  request : Request
  deriving DecidableEq

namespace CommandLine

open Text

/-! ### Values -/

/-- A port number; a sign may stand in front of it. -/
def readPort? (value : String) : Option UInt16 :=
  let n? :=
    match value.toList with
    | '-' :: t => (Numeral.value? t).filter (· = 0)
    | t => Numeral.read? (UInt16.size - 1) t
  n?.map .ofNat

def defaultPort : UInt16 := 9400

/-! ### Reading arguments -/

/-- What the arguments have said so far. -/
structure Draft where
  command? : Option Command
  /-- The log format in front of the command. -/
  outerFormat? : Option LogFormat
  /-- The log format where the arguments are read now. -/
  logFormat? : Option LogFormat
  config? : Option String
  port? : Option UInt16
  stdinEvents : Bool
  /-- What is wrong with the option that was read last. -/
  fault? : Option UsageFault
  /-- What is wrong with the option right in front of the command. -/
  outerFault? : Option UsageFault

def Draft.empty : Draft := ⟨none, none, none, none, none, false, none, none⟩

/-- The format in force; the one behind the command wins. -/
def Draft.format (d : Draft) : LogFormat :=
  (d.logFormat?.or d.outerFormat?).getD .text

/-- Whether an option may stand where the arguments are read now. -/
def Draft.takes (d : Draft) : Parameter → Bool
  | .logFormat => true
  | .config | .port => d.command? = some .run

/-- Give an option its value. -/
def Draft.set (d : Draft) (parameter : Parameter) (value : String) : Except UsageFault Draft :=
  match parameter with
  | .logFormat =>
    if d.logFormat?.isSome then .error (.repeated parameter.name)
    else match LogFormat.ofName? value with
      | some format => .ok { d with logFormat? := some format }
      | none => .error (.invalidValue parameter value)
  | .config =>
    if d.config?.isSome then .error (.repeated parameter.name)
    else if value.isEmpty then .error (.invalidValue parameter value)
    else .ok { d with config? := some value }
  | .port =>
    if d.port?.isSome then .error (.repeated parameter.name)
    else match readPort? value with
      | some port => .ok { d with port? := some port }
      | none => .error (.invalidValue parameter value)

/-- Give an option its value, and leave the judgement for later. -/
def Draft.setUnjudged (d : Draft) (parameter : Parameter) (value : String) : Draft :=
  match d.set parameter value with
  | .ok d => d
  | .error fault => { d with fault? := some fault }

/-- Judge the option that was read last. -/
def Draft.judge (d : Draft) : Except UsageFault Unit :=
  d.fault?.elim (.ok ()) .error

/-- The topic of help that is asked for by an option. -/
def Draft.topic (d : Draft) : Topic :=
  d.command?.elim .program .command

/-- What the arguments ask for, once all are read. -/
def Draft.finish (d : Draft) : Except UsageFault Invocation := do
  d.judge
  d.outerFault?.elim (.ok ()) .error
  match d.command? with
  | none => .error .noCommand
  | some .scaffold => return ⟨d.format, .scaffold⟩
  | some .run => return ⟨d.format, .run ⟨d.config?, d.port?.getD defaultPort, d.stdinEvents⟩⟩

/-- A long option: its name, and the value behind an equals sign if there is one. -/
def splitLong? (argument : String) : Option (String × Option String) :=
  match argument.toList with
  | '-' :: '-' :: t =>
    let name := String.ofList (t.takeWhile (· ≠ '='))
    match t.dropWhile (· ≠ '=') with
    | [] => some (name, none)
    | _ :: value => some (name, some (.ofList value))
  | _ => none

/-- Whether an argument looks like an option, and so is nobody's value. -/
def looksLikeOption (argument : String) : Bool :=
  match argument.toList with
  | '-' :: _ :: _ => true
  | _ => false

/-- Whether an argument asks for help in one letter. -/
def asksForHelp (argument : String) : Bool :=
  match argument.toList with
  | '-' :: 'h' :: _ => true
  | _ => false

/-- Read the word `help` with the commands behind it. -/
def readHelp (d : Draft) : List String → Except UsageFault Invocation
  | [] => .ok ⟨d.format, .help .program⟩
  | [word] =>
    match Topic.ofName? word with
    | some topic => .ok ⟨d.format, .help topic⟩
    | none => .error (.unexpected word)
  | _ :: word :: _ => .error (.unexpected word)

/-- Read an argument that is no option: a command, if there is none yet. -/
def readWord (d : Draft) (word : String) : Except UsageFault Draft :=
  match d.command?, Command.ofName? word with
  | none, some command =>
    .ok { d with
      command? := some command
      outerFormat? := d.logFormat?
      logFormat? := none
      outerFault? := d.fault?
      fault? := none }
  | _, _ => .error (.unexpected word)

def readFrom (d : Draft) : List String → Except UsageFault Invocation
  | [] => d.finish
  | argument :: rest =>
    match splitLong? argument with
    | some ("", none) =>
      -- Behind a bare pair of hyphens there are only words, and no command takes any.
      match rest with
      | [] => d.finish
      | word :: _ => .error (.unexpected word)
    | some ("help", none) => do
      d.judge
      return ⟨d.format, .help d.topic⟩
    | some ("stdin-events", none) => do
      d.judge
      if d.command? ≠ some .run then .error (.unexpected argument)
      else if d.stdinEvents then .error (.repeated "stdin-events")
      else readFrom { d with stdinEvents := true } rest
    | some (name, value?) => do
      d.judge
      match (Parameter.ofName? name).filter d.takes, value?, rest with
      | none, _, _ => .error (.unexpected argument)
      | some parameter, some value, rest => readFrom (← d.set parameter value) rest
      | some parameter, none, [] => .error (.missingValue parameter)
      | some parameter, none, value :: rest =>
        if looksLikeOption value then .error (.missingValue parameter)
        else readFrom (d.setUnjudged parameter value) rest
    | none =>
      if looksLikeOption argument then do
        d.judge
        if asksForHelp argument then return ⟨d.format, .help d.topic⟩
        else .error (.unexpected argument)
      else if argument = "help" ∧ d.command? = none then readHelp d rest
      else do readFrom (← readWord d argument) rest

end CommandLine

/-- What the arguments of the daemon ask for. -/
def Invocation.parse (arguments : List String) : Except UsageFault Invocation :=
  CommandLine.readFrom .empty arguments

end ScaleWatch.Daemon
