import ScaleWatch.Config.Reading
import ScaleWatch.Toml.Section

/-!
# Writing configurations

A configuration is written with all its parts, also those that have their defaults. TOML numbers
have 64 bits and a sign, so a configuration with a larger size has no text.
-/

namespace ScaleWatch.Config

open Toml

def thresholdsSection (b : Bounds) : Section where
  name := "thresholds".toList
  settings := [("lower_limit".toList, .number b.lower.toNat),
    ("upper_limit".toList, .number b.upper.toNat),
    ("buffer_length".toList, .number b.bufferLength.toNat)]

def monitorSection (c : Config) : Section where
  name := "monitor".toList
  settings := [("gate".toList, .text c.policy.name.toList),
    ("max_keys".toList, .number c.maxKeys.toNat),
    ("signal_slots".toList, .number c.signalSlots.toNat),
    ("slot_capacity".toList, .number c.slotCapacity.toNat)]

def consumerSection (c : Config) : Section where
  name := "consumer".toList
  settings := (c.rearmAfter?.map fun t => ("rearm_after".toList, .text t.toList)).toList

def watchSection (c : Config) : Section where
  name := "watch".toList
  settings := [("keys".toList, .texts (c.keys.map Key.chars))]

def sections (c : Config) : List Section :=
  (c.bounds?.map thresholdsSection).toList ++
    [c.monitorSection, c.consumerSection, c.watchSection]

/-- The largest size that can be written. -/
def maxSize : Nat := UInt64.size / 2 - 1

/-- Whether all sizes can be written. -/
def IsWritable (c : Config) : Prop :=
  c.maxKeys.toNat ≤ maxSize ∧ c.signalSlots.toNat ≤ maxSize ∧ c.slotCapacity.toNat ≤ maxSize

instance (c : Config) : Decidable c.IsWritable := inferInstanceAs (Decidable (_ ∧ _ ∧ _))

def text? (c : Config) : Option String :=
  if c.IsWritable then some (.ofList (Section.allChars c.sections)) else none

end ScaleWatch.Config
