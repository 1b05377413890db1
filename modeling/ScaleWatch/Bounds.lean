import ScaleWatch.Fault

/-!
# Bounds

A count is in band when it lies strictly between two limits. Bounds also say how many events in a
row must be out of band before a signal fires. `Bounds.check` refuses bounds that leave no band or
ask for no event at all; they are still values, since the three numbers can be set one at a time.
-/

namespace ScaleWatch

/-- The direction in which a unit should be scaled. -/
inductive Direction where
  | scaleDown
  | scaleUp
  deriving DecidableEq

/-- The word for a direction on the wire. -/
def Direction.token : Direction → String
  | scaleDown => "Lower"
  | scaleUp => "Upper"

def Direction.ofToken? (t : List Char) : Option Direction :=
  if t = "Lower".toList then some .scaleDown
  else if t = "Upper".toList then some .scaleUp
  else none

/-- Whether a signal holds its key's gate until it is cleared from outside. -/
inductive GatePolicy where
  | latched
  | ungated
  deriving DecidableEq

structure Bounds where
  lower : UInt32
  upper : UInt32
  /-- The number of events out of band in a row that fires a signal. -/
  bufferLength : UInt32
  deriving DecidableEq

namespace Bounds

/-- Bounds with a band between them and at least one event to wait for. -/
def Consistent (b : Bounds) : Prop :=
  b.lower < b.upper ∧ 0 < b.bufferLength

instance (b : Bounds) : Decidable b.Consistent := inferInstanceAs (Decidable (_ ∧ _))

def check (b : Bounds) : Except Fault Unit :=
  if b.upper ≤ b.lower then .error (.invertedBounds b.lower b.upper)
  else if b.bufferLength = 0 then .error .zeroBufferLength
  else .ok ()

def outOfBand (b : Bounds) (count : UInt32) : Bool :=
  count ≤ b.lower || b.upper ≤ count

/-- The direction that a count out of band asks for; the lower limit is looked at first. -/
def direction (b : Bounds) (count : UInt32) : Direction :=
  if count ≤ b.lower then .scaleDown else .scaleUp

theorem check_eq_ok_iff {b : Bounds} : b.check = .ok () ↔ b.Consistent := by
  unfold check Consistent
  split
  next inverted => simp [UInt32.not_lt.2 inverted]
  next ordered => split <;> simp_all [UInt32.pos_iff_ne_zero]

/-- The numbers of some bounds, as far as they are known. -/
structure Parts where
  lower : Option UInt32
  upper : Option UInt32
  bufferLength : Option UInt32

namespace Parts

def empty : Parts := ⟨none, none, none⟩

def toList (p : Parts) : List (Option UInt32) :=
  [p.lower, p.upper, p.bufferLength]

/-- The bounds, once all three numbers are known. -/
def bounds? (p : Parts) : Option Bounds := do
  return ⟨← p.lower, ← p.upper, ← p.bufferLength⟩

end Parts

end Bounds

end ScaleWatch
