import ScaleWatch.Text.Utf8
import ScaleWatch.Wire

/-!
# Line ingestion

An observer may pipe events in, one JSON object a line. Every line that is an event is handed to
the monitor in order; blank lines and lines that are no event are skipped and stop nothing. Only a
line that is not text stops the input: it is read, and nothing behind it is.
-/

namespace ScaleWatch.Ingest

open Text

/-- The lines of an input, each with the line feed that ends it; the last one may lack it. -/
def lines : List UInt8 → List (List UInt8)
  | [] => []
  | b :: rest =>
    if b = 0x0A then [b] :: lines rest
    else
      match lines rest with
      | [] => [[b]]
      | line :: more => (b :: line) :: more

/-- The texts of the lines before the first that is not text. -/
def readable : List (List UInt8) → List (List Char)
  | [] => []
  | line :: more =>
    match Utf8.decode? line with
    | some t => t :: readable more
    | none => []

/-- How many octets are read: all lines up to and with the first that is not text. -/
def octetsRead : List (List UInt8) → Nat
  | [] => 0
  | line :: more =>
    match Utf8.decode? line with
    | some _ => line.length + octetsRead more
    | none => line.length

/-- How many octets are read when nobody takes the lines: the reader stops after the first. -/
def octetsReadUnheard (input : List UInt8) : Nat :=
  octetsRead ((lines input).take 1)

/-- The event on a line, if it is one; the line end counts among the blanks around it. -/
def eventOf? (line : List Char) : Option Event :=
  (Event.ofJsonText (trim line)).toOption

/-- The events of an input, in order. -/
def events (input : List UInt8) : List Event :=
  (readable (lines input)).filterMap eventOf?

/-- Hand events to the monitor in order; what they fire is nobody's answer here. -/
def feed (worker : Nat) (events : List Event) (m : Monitor) : Monitor :=
  events.foldl (fun m e => (m.observe worker (.event e)).2) m

end ScaleWatch.Ingest
