import ScaleWatch.Fault
import ScaleWatch.Text.Blank

/-!
# Durations

A duration is written as a number of seconds, alone or followed by `s`, or as a number of minutes
followed by `m`. It is read exactly or refused: nothing that overflows 64 bits is accepted.
-/

namespace ScaleWatch

/-- A span of time in whole seconds. -/
structure Duration where
  seconds : UInt64
  deriving DecidableEq

namespace Duration

open Text

def maxSeconds : Nat :=
  UInt64.size - 1

/-- The seconds that a text without outer blanks stands for. -/
def secondsOf? (t : List Char) : Option Nat :=
  match t.getLast? with
  | some 's' => Numeral.read? maxSeconds t.dropLast
  | some 'm' =>
    ((Numeral.read? maxSeconds t.dropLast).map (60 * ·)).filter (· ≤ maxSeconds)
  | _ => Numeral.read? maxSeconds t

def parse (text : String) : Except Fault Duration :=
  let t := trim text.toList
  match secondsOf? t with
  | some n => .ok ⟨.ofNat n⟩
  | none => .error (.invalidDuration (String.ofList t))

end Duration

end ScaleWatch
