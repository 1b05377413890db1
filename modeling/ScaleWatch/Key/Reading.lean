import ScaleWatch.Fault
import ScaleWatch.Text.Blank

/-!
# Reading keys

A key may be written with blanks around it, with a plus sign and with leading zeros; it is read
into the same key, whose text form is one. What is not read is refused with the text as written.
-/

namespace ScaleWatch.Key

open Text

/-- The key that a text without outer blanks spells. -/
def ofTrimmed? (t : List Char) : Option Key :=
  match t.takeWhile (· ≠ ':'), t.dropWhile (· ≠ ':') with
  | kind, _ :: value =>
    if kind = "netns".toList then
      (Numeral.read? (UInt32.size - 1) value).map fun n => netns (.ofNat n)
    else if kind = "port".toList then
      (Numeral.read? (UInt16.size - 1) value).map fun n => port (.ofNat n)
    else none
  | _, [] => none

def ofChars? (t : List Char) : Option Key :=
  ofTrimmed? (trim t)

def parse (text : String) : Except Fault Key :=
  match ofChars? text.toList with
  | some k => .ok k
  | none => .error (.invalidKey text)

end ScaleWatch.Key
