import ScaleWatch.Daemon.StartUp
import ScaleWatch.Session.Step

/-!
# The program

The outer layer: arguments, files, standard input and the clock. A daemon that serves takes events
from standard input and prints its signals; gates are released by the clock, which is read before
each line, since between two lines nobody can tell. The control surface is `Http.handle`; this
program opens no port for it.
-/

namespace ScaleWatch.Program

open Daemon

/-- The number of processing units when the machine does not say. -/
def unknownUnits : UInt64 := 8

def processingUnits : IO UInt64 := do
  try
    let lines ← IO.FS.lines "/proc/cpuinfo"
    let units := (lines.filter (·.startsWith "processor")).size
    return if units = 0 then unknownUnits else .ofNat units
  catch _ => return unknownUnits

/-- The number by which the system tells that a part of a path is no directory; it comes with
either sign. -/
def notADirectoryCode : UInt32 := 20

def fileFault : IO.Error → FileFault
  | .permissionDenied .. => .permissionDenied
  | .inappropriateType _ code _ =>
    if code = notADirectoryCode ∨ code = -notADirectoryCode then .notADirectory
    else .isADirectory
  | .invalidArgument .. => .nameTooLong
  | _ => .notFound

def readFile (path : String) : IO (Except FileFault (List UInt8)) := do
  try
    return .ok (← IO.FS.readBinFile path).data.toList
  catch e => return .error (fileFault e)

/-- The surroundings as they are when the program is started with a request. -/
def surroundings : Request → IO Environment
  | .run ⟨some path, _, _⟩ => do
    let content ← readFile path
    return ⟨← processingUnits, fun _ => content, fun _ => .ok ()⟩
  | _ => return ⟨← processingUnits, fun _ => .error .notFound, fun _ => .ok ()⟩

/-- Take a step and print the signals it leads to. -/
def take (st : Session.Step) (session : Session) : IO Session := do
  let (_, signals, session) := session.step st
  for signal in signals do
    IO.println signal.line
  (← IO.getStdout).flush
  return session

/-- Take events from standard input until it ends or holds something that is not text. -/
partial def serveLines (input : IO.FS.Stream) (clock : Nat) (session : Session) : IO Unit := do
  let line ← try input.getLine catch e =>
    IO.eprintln ("stdin event ingestion failed: " ++ toString e)
    return
  if line.isEmpty then return
  let now ← IO.monoMsNow
  let session ← take (.advance (now - clock)) session
  serveLines input now (← take (.lines line.toUTF8.data.toList) session)

def logAll (format : LogFormat) (notices : List Notice) : IO Unit := do
  for notice in notices do
    IO.eprintln (notice.line format)

def run : Launch → IO UInt32
  | .usage fault => do
    IO.eprintln ("error: " ++ fault.message ++ "\n\n" ++ Topic.program.text)
    return 2
  | .printed text => do
    IO.print text
    return 0
  | .failed format notices fault => do
    logAll format notices
    IO.eprintln ("Error: " ++ fault.message)
    if let some cause := fault.cause? then
      IO.eprintln ("\nCaused by:\n    " ++ cause)
    return fault.exitCode.toUInt32
  | .serving format notices options session => do
    logAll format notices
    if options.stdinEvents then
      serveLines (← IO.getStdin) (← IO.monoMsNow) session
    return 0

def start (arguments : List String) : IO UInt32 :=
  match Invocation.parse arguments with
  | .error fault => run (.usage fault)
  | .ok i => do run (launchAs (← surroundings i.request) i.logFormat i.request)

end ScaleWatch.Program

def main (arguments : List String) : IO UInt32 :=
  ScaleWatch.Program.start arguments
