import Mathlib.Data.List.Induction
import ScaleWatch.Proofs.Bounds.Slots
import ScaleWatch.Proofs.Monitor.SharedParts

/-!
# The last writer of a threshold slot

The three slots are written together or one at a time, by many operations, and some writes are
refused.  A slot holds what the last write that was accepted has put there, and if there was none, a
marker that no number is mistaken for; a write that is refused leaves all of the monitor as it was
(`slots_hold_last_written`).  The two ways of writing are checked differently: bounds that are stored
must be consistent, whereas any value is put into a single slot, so that what the slots hold is
checked once more when it is used.
-/

namespace ScaleWatch.Monitor

/-- A threshold write that must not be refused. -/
def Op.IsAccepted : Op → Prop
  | store b => b.lower < b.upper ∧ 0 < b.bufferLength
  | writeSlot index _ => index ≤ 2
  | _ => False

instance : DecidablePred Op.IsAccepted
  | .store b => inferInstanceAs (Decidable (b.lower < b.upper ∧ 0 < b.bufferLength))
  | .writeSlot index _ => inferInstanceAs (Decidable (index ≤ 2))
  | .register _ | .unregister _ | .clearGate _ | .stats _ | .apply _ _ | .evaluate _ _ _ _
  | .transition _ _ _ | .observe _ _ | .tryRecv | .poll | .drain | .dropStream => isFalse id

/-- The value that a write has for the slot of an index. -/
def Op.valueFor? (index : Nat) : Op → Option UInt32
  | store b => [b.lower, b.upper, b.bufferLength][index]?
  | writeSlot index' value => if index' = index then some value else none
  | _ => none

/-- The value that the last accepted write to a slot has for it. -/
def lastWritten? (index : Nat) (ops : List Op) : Option UInt32 :=
  ((ops.filter (·.IsAccepted)).filterMap (Op.valueFor? index)).getLast?

theorem lastWritten?_concat (index : Nat) (ops : List Op) (op : Op) :
    lastWritten? index (ops ++ [op]) =
      if op.IsAccepted then (op.valueFor? index).or (lastWritten? index ops)
      else lastWritten? index ops := by
  unfold lastWritten?
  rw [List.filter_append, List.filterMap_append, List.getLast?_append]
  by_cases accepted : op.IsAccepted
  · cases value : op.valueFor? index <;> simp [accepted, value]
  · simp [accepted]

/-! ### One operation -/

theorem known_of_accepted {index : Nat} {value : UInt32}
    (accepted : (Op.writeSlot index value).IsAccepted) : index = 0 ∨ index = 1 ∨ index = 2 := by
  have known : index ≤ 2 := accepted
  omega

/-- An accepted write puts its values into their slots. -/
theorem onThresholds_of_accepted {op : Op} (accepted : op.IsAccepted) (s : Bounds.Slots) :
    (op.onThresholds s).parts =
      ⟨(op.valueFor? 0).or s.parts.lower, (op.valueFor? 1).or s.parts.upper,
        (op.valueFor? 2).or s.parts.bufferLength⟩ := by
  cases op with
  | store b =>
    rw [Op.onThresholds, Bounds.Slots.store_of_consistent accepted]
    exact Bounds.Slots.parts_ofBounds b
  | writeSlot index value =>
    rcases known_of_accepted accepted with rfl | rfl | rfl <;>
      simp [Op.onThresholds, Bounds.Slots.write, Bounds.Slots.parts, Op.valueFor?, Except.toOption]
  | _ => exact accepted.elim

theorem onThresholds_of_not_accepted {op : Op} (refused : ¬op.IsAccepted) (s : Bounds.Slots) :
    op.onThresholds s = s := by
  cases op with
  | store b =>
    rcases checked : b.check with fault | ⟨⟩
    · rw [Op.onThresholds, Bounds.Slots.store_of_check checked]
      rfl
    · exact absurd (Bounds.check_eq_ok_iff.1 checked) refused
  | writeSlot index value =>
    rw [Op.onThresholds, Bounds.Slots.write_of_unknown (Nat.not_le.1 refused)]
    rfl
  | _ => rfl

theorem answer_of_accepted {op : Op} (accepted : op.IsAccepted) (m : Monitor) :
    (m.step op).1 = .thresholds (m.step op).2.thresholds := by
  cases op with
  | store b =>
    rw [step, Monitor.store, Bounds.Slots.store_of_consistent accepted]
    rfl
  | writeSlot index value =>
    rw [step, Monitor.writeSlot]
    rcases known_of_accepted accepted with rfl | rfl | rfl <;> rfl
  | _ => exact accepted.elim

theorem step_store_of_check {b : Bounds} {fault : Fault} (refused : b.check = .error fault)
    (m : Monitor) : m.step (.store b) = (.refused fault, m) := by
  rw [step, Monitor.store, Bounds.Slots.store_of_check refused]
  rfl

theorem step_writeSlot_of_unknown {index : Nat} (unknown : 2 < index) (value : UInt32)
    (m : Monitor) : m.step (.writeSlot index value) = (.refused (.unknownSlot index), m) := by
  rw [step, Monitor.writeSlot, Bounds.Slots.write_of_unknown unknown]
  rfl

/-! ### All operations -/

/-- After any operations there is read from each slot what was written into it last. -/
theorem thresholds_run (settings : Settings) (ops : List Op) :
    (run ops (new settings)).2.thresholds.parts =
      ⟨lastWritten? 0 ops, lastWritten? 1 ops, lastWritten? 2 ops⟩ := by
  induction ops using List.reverseRecOn with
  | nil => rfl
  | append_singleton ops op ih =>
    rw [run_concat, thresholds_step, lastWritten?_concat, lastWritten?_concat, lastWritten?_concat]
    by_cases accepted : op.IsAccepted
    · rw [onThresholds_of_accepted accepted, ih, if_pos accepted, if_pos accepted, if_pos accepted]
    · rw [onThresholds_of_not_accepted accepted, ih, if_neg accepted, if_neg accepted,
        if_neg accepted]

/-- Whatever is done to a monitor, each threshold slot holds the value of the last accepted write to
it, and the marker if there was none; no value is taken for the marker or for another value.
Inverted bounds, bounds without a buffer length and an unknown slot are refused, and nothing at all
changes.  The bounds in force are those in the slots, once all three are written and while they are
consistent. -/
theorem slots_hold_last_written (settings : Settings) (ops : List Op) :
    let m := (run ops (new settings)).2
    m.thresholds.toList = [lastWritten? 0 ops, lastWritten? 1 ops, lastWritten? 2 ops] ∧
    m.thresholds.words =
      [lastWritten? 0 ops, lastWritten? 1 ops, lastWritten? 2 ops].map Bounds.Slot.wordOf ∧
    Function.Injective Bounds.Slot.wordOf ∧
    (∀ op, op.IsAccepted → (m.step op).1 = .thresholds (m.step op).2.thresholds) ∧
    (∀ b, b.upper ≤ b.lower →
      m.step (.store b) = (.refused (.invertedBounds b.lower b.upper), m)) ∧
    (∀ b, b.lower < b.upper → b.bufferLength = 0 →
      m.step (.store b) = (.refused .zeroBufferLength, m)) ∧
    (∀ index value, 2 < index →
      m.step (.writeSlot index value) = (.refused (.unknownSlot index), m)) ∧
    ∀ b, m.thresholds.active? = some b ↔
      m.thresholds.toList = [some b.lower, some b.upper, some b.bufferLength] ∧
        b.lower < b.upper ∧ 0 < b.bufferLength := by
  intro m
  have held : m.thresholds.toList =
      [lastWritten? 0 ops, lastWritten? 1 ops, lastWritten? 2 ops] := by
    rw [Bounds.Slots.toList, thresholds_run settings ops]
    rfl
  have words := m.thresholds.words_eq
  rw [held] at words
  refine ⟨held, words, Bounds.Slot.wordOf_injective,
    fun op accepted => answer_of_accepted accepted m, fun b inverted => ?_,
    fun b ordered zero => ?_, fun index value unknown => ?_, fun b => ?_⟩
  · exact step_store_of_check (Bounds.check_of_inverted inverted) m
  · exact step_store_of_check (Bounds.check_of_zero_length ordered zero) m
  · exact step_writeSlot_of_unknown unknown value m
  · rw [Bounds.Slots.active?_eq_some_iff, Bounds.Slots.eq_ofBounds_iff]
    exact Iff.rfl

/-- A store that is refused for its buffer length alone keeps its limits out of the slots, and the
largest number is a value like any other. -/
example : lastWritten? 1 [.writeSlot 1 4294967295, .store ⟨2, 10, 0⟩, .writeSlot 3 7] =
    some 4294967295 := by
  decide

end ScaleWatch.Monitor
