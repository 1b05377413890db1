import ScaleWatch.Key

/-!
# Faults

Everything the control surface can refuse, by cause. The wording of each cause is `Fault.message`
and nowhere else.
-/

namespace ScaleWatch

/-- The settings that must not be zero. -/
inductive SizeSetting where
  | maxKeys
  | signalSlots
  | slotCapacity
  deriving DecidableEq

def SizeSetting.name : SizeSetting → String
  | maxKeys => "monitor.max_keys"
  | signalSlots => "monitor.signal_slots"
  | slotCapacity => "monitor.slot_capacity"

inductive Fault where
  /-- A text that is no key; it is quoted as it was written. -/
  | invalidKey (text : String)
  | invertedBounds (lower upper : UInt32)
  | zeroBufferLength
  | unknownSlot (index : Nat)
  /-- A text that is no duration, without the blanks around it. -/
  | invalidDuration (text : String)
  | zeroSetting (setting : SizeSetting)
  | registryFull (capacity : Nat)
  | unknownKey (key : Key)
  deriving DecidableEq

def Fault.message : Fault → String
  | invalidKey text => "invalid monitor key: " ++ text
  | invertedBounds lower upper =>
    "upper limit " ++ upper.toNat.repr ++ " must be greater than lower limit " ++ lower.toNat.repr
  | zeroBufferLength => "buffer length must be at least 1"
  | unknownSlot index => "unknown threshold slot " ++ index.repr ++ " (expected 0, 1 or 2)"
  | invalidDuration text => "invalid duration: " ++ text
  | zeroSetting setting => setting.name ++ " must be greater than zero"
  | registryFull capacity => "watch registry is full (" ++ capacity.repr ++ " keys)"
  | unknownKey key => "key not registered: " ++ key.text

end ScaleWatch
