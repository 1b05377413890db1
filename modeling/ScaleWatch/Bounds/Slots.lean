import ScaleWatch.Bounds

/-!
# Threshold slots

The bounds in force live in three slots that are set anew while events arrive, all at once or one
at a time. A slot is a word of 64 bits. It holds a number of 32 bits once it is written, and until
then a marker, which no such number is mistaken for. `Slots.active?` gives bounds only when all
three are there and consistent, so a change that is half done pauses evaluation and never
misjudges an event.
-/

namespace ScaleWatch.Bounds

/-! ### One slot -/

/-- The word of a slot that has never been written. -/
def unwritten : UInt64 := 0xffffffffffffffff

/-- A word for a number of 32 bits, which stands there once it is written. -/
structure Slot where
  word : UInt64
  written : word ≠ unwritten → word.toNat < UInt32.size
  deriving DecidableEq

namespace Slot

def empty : Slot :=
  ⟨unwritten, fun other => absurd rfl other⟩

/-- A slot into which a number has been written. -/
def holding (n : UInt32) : Slot :=
  ⟨n.toUInt64, fun _ => n.toNat_toUInt64 ▸ n.toNat_lt⟩

/-- The number in a slot, if one has been written. -/
def value? (s : Slot) : Option UInt32 :=
  if s.word = unwritten then none else some s.word.toUInt32

@[simp] theorem value?_empty : empty.value? = none := rfl

/-- A number of 32 bits is never the marker, the largest one included. -/
theorem toUInt64_ne_unwritten (n : UInt32) : n.toUInt64 ≠ unwritten := by
  intro same
  have largest : n.toNat = UInt64.size - 1 := by
    rw [← n.toNat_toUInt64, same]
    rfl
  have fits := n.toNat_lt
  simp only [UInt64.size] at largest
  omega

@[simp] theorem value?_holding (n : UInt32) : (holding n).value? = some n := by
  show (if n.toUInt64 = unwritten then none else some n.toUInt64.toUInt32) = some n
  rw [if_neg (toUInt64_ne_unwritten n), UInt32.toUInt32_toUInt64]

end Slot

/-! ### Three slots -/

structure Slots where
  lower : Slot
  upper : Slot
  bufferLength : Slot
  deriving DecidableEq

namespace Slots

def empty : Slots := ⟨.empty, .empty, .empty⟩

/-- Slots that hold bounds, consistent or not. -/
def ofBounds (b : Bounds) : Slots :=
  ⟨.holding b.lower, .holding b.upper, .holding b.bufferLength⟩

/-- Write all three slots, or none if the bounds are refused. -/
def store (b : Bounds) (_ : Slots) : Except Fault Slots := do
  b.check
  return ofBounds b

/-- Write the slot of one index: the limits are 0 and 1, the buffer length is 2. -/
def write (index : Nat) (value : UInt32) (s : Slots) : Except Fault Slots :=
  match index with
  | 0 => .ok { s with lower := .holding value }
  | 1 => .ok { s with upper := .holding value }
  | 2 => .ok { s with bufferLength := .holding value }
  | _ => .error (.unknownSlot index)

/-- The numbers that have been written. -/
def parts (s : Slots) : Parts :=
  ⟨s.lower.value?, s.upper.value?, s.bufferLength.value?⟩

def toList (s : Slots) : List (Option UInt32) :=
  s.parts.toList

/-- The bounds that events are judged by, if there are any. -/
def active? (s : Slots) : Option Bounds :=
  s.parts.bounds?.filter (·.Consistent)

end Slots

end ScaleWatch.Bounds
