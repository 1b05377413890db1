import Mathlib.Data.List.Perm.Basic
import ScaleWatch.Proofs.Bounds.Slots
import ScaleWatch.Proofs.Monitor.SharedParts
import ScaleWatch.Proofs.Pressure.SignalLaw

/-!
# Changing bounds slot by slot

The bounds in force can be changed by writing the three threshold slots one at a time, in any order,
while events arrive.  On the way the slots hold numbers of the old bounds beside numbers of the new
ones, and such a mixture may be consistent and judge events.  `changeover_judges_alike` says what
cannot happen meanwhile: a count that the old and the new bounds put in the same zone, below, within
or above the band, is never judged to lie in another.

The reason is that a zone is a matter of two comparisons, each with one number only
(`puts_partWay`).
-/

namespace ScaleWatch

/-! ### Zones -/

/-- Where a count may lie. -/
inductive Zone where
  /-- At the lower limit or below. -/
  | low
  /-- Strictly between the limits. -/
  | inside
  /-- At the upper limit or above. -/
  | high

/-- The bounds put a count in a zone. -/
def Bounds.Puts (b : Bounds) (count : UInt32) : Zone → Prop
  | .low => count ≤ b.lower
  | .inside => b.lower < count ∧ count < b.upper
  | .high => b.upper ≤ count

/-- What may come of judging a count in the zone: one in band fires nothing and makes no run longer,
and any other fires in its own direction only. -/
def Zone.Allows (before after : Pressure) (fired : Option Direction) : Zone → Prop
  | low => ∀ d ∈ fired, d = .scaleDown
  | inside => fired = none ∧ after.run ≤ before.run
  | high => ∀ d ∈ fired, d = .scaleUp

section Zones

variable {b old new : Bounds} {count : UInt32} {z : Zone}

theorem Pressure.eq_direction_of_evaluate {policy : GatePolicy} {p : Pressure} {d : Direction}
    (fired : d ∈ (p.evaluate policy b count).1) : d = b.direction count := by
  unfold evaluate at fired
  split_ifs at fired <;> simp_all

theorem Pressure.run_evaluate_of_inBand (inside : b.outOfBand count = false) (policy : GatePolicy)
    (p : Pressure) :
    (p.evaluate policy b count).1 = none ∧ (p.evaluate policy b count).2.run ≤ p.run := by
  by_cases held : p.gated = true
  · rw [evaluate_of_gated held]
    exact ⟨rfl, UInt32.le_refl _⟩
  · rw [evaluate_of_inBand (by simpa using held) inside]
    exact ⟨rfl, UInt32.zero_le⟩

/-- Bounds with a band between them judge a count by the zone they put it in. -/
theorem Bounds.Puts.allows (consistent : b.Consistent) (h : b.Puts count z) (policy : GatePolicy)
    (p : Pressure) :
    z.Allows p (p.evaluate policy b count).2 (p.evaluate policy b count).1 := by
  cases z with
  | low =>
    intro d fired
    have below : count ≤ b.lower := h
    rw [Pressure.eq_direction_of_evaluate fired, direction, if_pos below]
  | inside =>
    refine Pressure.run_evaluate_of_inBand ?_ policy p
    simp [outOfBand, UInt32.not_le.2 h.1, UInt32.not_le.2 h.2]
  | high =>
    intro d fired
    have above : ¬count ≤ b.lower := UInt32.not_le.2 (UInt32.lt_of_lt_of_le consistent.1 h)
    rw [Pressure.eq_direction_of_evaluate fired, direction, if_neg above]

/-! ### Bounds that are written in part -/

/-- The bounds on the way from `old` to `new`, when the slots of the given indices are written. -/
def Bounds.partWay (old new : Bounds) (written : List Nat) : Bounds where
  lower := if 0 ∈ written then new.lower else old.lower
  upper := if 1 ∈ written then new.upper else old.upper
  bufferLength := if 2 ∈ written then new.bufferLength else old.bufferLength

/-- What the old and the new bounds say of a count, those on the way say, too. -/
theorem Bounds.puts_partWay (before : old.Puts count z) (after : new.Puts count z)
    (written : List Nat) : (old.partWay new written).Puts count z := by
  cases z with
  | low =>
    show count ≤ ite _ _ _
    split
    · exact after
    · exact before
  | inside =>
    constructor
    · show ite _ _ _ < count
      split
      · exact after.1
      · exact before.1
    · show count < ite _ _ _
      split
      · exact after.2
      · exact before.2
  | high =>
    show ite _ _ _ ≤ count
    split
    · exact after
    · exact before

end Zones

/-! ### Operations -/

namespace Monitor

/-- The three operations that write bounds into the slots. -/
def writesOf (b : Bounds) : List Op :=
  [.writeSlot 0 b.lower, .writeSlot 1 b.upper, .writeSlot 2 b.bufferLength]

def Op.isThresholdWrite : Op → Bool
  | store _ | writeSlot _ _ => true
  | _ => false

/-- The slot that an operation writes. -/
def Op.slot? : Op → Option Nat
  | writeSlot index _ => some index
  | _ => none

/-- What an event reports, if it counts: the worker that handles it, the key and the transition. -/
def Op.event? : Op → Option (Nat × Key × Transition)
  | transition worker k t => some (worker, k, t)
  | observe worker o => o.transition?.map fun (k, t) => (worker, k, t)
  | _ => none

theorem step_of_event {op : Op} {worker : Nat} {k : Key} {t : Transition}
    (event : op.event? = some (worker, k, t)) (m : Monitor) :
    m.step op = (.signal (m.transition worker k t).1, (m.transition worker k t).2) := by
  cases op with
  | transition worker' k' t' =>
    cases event
    rfl
  | observe worker' o =>
    obtain ⟨⟨k', t'⟩, seen, same⟩ := Option.map_eq_some_iff.1 event
    cases same
    simp only [step, observe, seen]
  | _ => cases event

/-! ### What a changeover keeps -/

section Changeover

variable {old new : Bounds}

/-- A write takes the bounds further on their way, and other operations leave them there. -/
theorem onThresholds_partWay {op : Op} (write : op.isThresholdWrite → op ∈ writesOf new)
    (written : List Nat) :
    op.onThresholds (.ofBounds (old.partWay new written)) =
      .ofBounds (old.partWay new (written ++ op.slot?.toList)) := by
  cases op with
  | store b => simp [writesOf, Op.isThresholdWrite] at write
  | writeSlot index value =>
    have here := write rfl
    simp only [writesOf, List.mem_cons, List.not_mem_nil, or_false, Op.writeSlot.injEq] at here
    rcases here with ⟨rfl, rfl⟩ | ⟨rfl, rfl⟩ | ⟨rfl, rfl⟩ <;>
      simp [Op.onThresholds, Bounds.Slots.write, Bounds.Slots.ofBounds, Bounds.partWay, Op.slot?,
        Except.toOption]
  | _ => simp [Op.onThresholds, Op.slot?]

theorem thresholds_run_partWay {ops : List Op} {m : Monitor} {written : List Nat}
    (writes : ∀ op ∈ ops, op.isThresholdWrite → op ∈ writesOf new)
    (start : m.thresholds = .ofBounds (old.partWay new written)) :
    (run ops m).2.thresholds =
      .ofBounds (old.partWay new (written ++ ops.filterMap Op.slot?)) := by
  induction ops generalizing m written with
  | nil => simpa [run] using start
  | cons op ops ih =>
    obtain ⟨first, rest⟩ := List.forall_mem_cons.1 writes
    have after : (m.step op).2.thresholds =
        .ofBounds (old.partWay new (written ++ op.slot?.toList)) := by
      rw [thresholds_step, start, onThresholds_partWay first]
    have tail := ih rest after
    rw [List.append_assoc] at tail
    rw [run, tail]
    cases slot : op.slot? <;> simp [slot]

/-- Once all three slots are written, the bounds are the new ones. -/
theorem partWay_of_written {ops : List Op} (writes : ∀ op ∈ writesOf new, op ∈ ops) :
    old.partWay new (ops.filterMap Op.slot?) = new := by
  have slot : ∀ op ∈ writesOf new, ∀ i, op.slot? = some i → i ∈ ops.filterMap Op.slot? :=
    fun op inside i here => List.mem_filterMap.2 ⟨op, writes op inside, here⟩
  have lower := slot (.writeSlot 0 new.lower) (by simp [writesOf]) 0 rfl
  have upper := slot (.writeSlot 1 new.upper) (by simp [writesOf]) 1 rfl
  have length := slot (.writeSlot 2 new.bufferLength) (by simp [writesOf]) 2 rfl
  simp only [Bounds.partWay, lower, upper, length, if_true]

end Changeover

/-! ### Events on the way -/

/-- The event changes nothing, and is counted as one for which there were no bounds. -/
def Ignores (op : Op) (m : Monitor) : Prop :=
  m.step op = (.signal none, { m with metrics := m.metrics.countUnconfigured })

/-- The event of a key is handled by judging the count to which it moves the pressure. -/
def Judges (b : Bounds) (op : Op) (k : Key) (moved after : Pressure) (fired : Option Direction)
    (m : Monitor) : Prop :=
  moved.evaluate m.policy b moved.count = (fired, after) ∧ (m.step op).1 = .signal fired ∧
    (m.step op).2.registry.find? k = some after

section Events

variable {op : Op} {worker : Nat} {k : Key} {t : Transition} {m : Monitor} {p : Pressure}
  {b : Bounds}

theorem judges_of_active (event : op.event? = some (worker, k, t))
    (watched : m.registry.find? k = some p) (active : m.thresholds.active? = some b) :
    m.Judges b op k (p.apply t) ((p.apply t).evaluate m.policy b (p.apply t).count).2
      ((p.apply t).evaluate m.policy b (p.apply t).count).1 := by
  have effect : m.effectOfTransition worker k t = .judge worker k (some t) b (p.apply t).count := by
    rw [effectOfTransition, watched, active]
  refine ⟨rfl, ?_, ?_⟩
  · rw [step_of_event event, answer_of_transition effect, fired, watched]
    rfl
  · rw [step_of_event event, (leads_transition worker k t m).find, effect, watched]
    exact if_pos rfl

theorem ignores_of_inactive (event : op.event? = some (worker, k, t))
    (watched : m.registry.find? k = some p) (inactive : m.thresholds.active? = none) :
    m.Ignores op := by
  have contains : m.registry.contains k = true := Registry.contains_iff.2 ⟨p, watched⟩
  rw [Ignores, step_of_event event, transition, if_pos contains, inactive]

end Events

/-- While bounds are changed slot by slot, in any order and among any other operations, an event is
judged by consistent bounds or ignored because there are none.  A count that the old and the new
bounds put in the same zone is put there by the bounds it is judged by, and what comes of it is what
the zone allows.  In the end the new bounds are in force. -/
theorem changeover_judges_alike {old new : Bounds} {m : Monitor} {ops : List Op}
    (active : m.thresholds.active? = some old) (consistent : new.Consistent)
    (writes : (ops.filter Op.isThresholdWrite).Perm (writesOf new)) :
    (run ops m).2.thresholds.active? = some new ∧
    ∀ before op later worker k t p, ops = before ++ op :: later →
      op.event? = some (worker, k, t) → (run before m).2.registry.find? k = some p →
      ∃ b, (run before m).2.thresholds = .ofBounds b ∧
        (¬b.Consistent ∧ (run before m).2.Ignores op ∨
          b.lower < b.upper ∧ 0 < b.bufferLength ∧
          ∃ after fired, (run before m).2.Judges b op k (p.apply t) after fired ∧
            ∀ z, old.Puts (p.apply t).count z → new.Puts (p.apply t).count z →
              b.Puts (p.apply t).count z ∧ z.Allows p after fired) := by
  have start : m.thresholds = .ofBounds (old.partWay new []) := by
    rw [Bounds.Slots.eq_ofBounds_of_active? active]
    simp [Bounds.partWay]
  have ours : ∀ op ∈ ops, op.isThresholdWrite → op ∈ writesOf new :=
    fun op inside write => writes.subset (List.mem_filter.2 ⟨inside, write⟩)
  refine ⟨?_, fun before op later worker k t p split event watched => ?_⟩
  · have all : ∀ op ∈ writesOf new, op ∈ ops :=
      fun op inside => List.mem_of_mem_filter (writes.symm.subset inside)
    rw [thresholds_run_partWay ours start, List.nil_append, partWay_of_written all,
      Bounds.Slots.active?_ofBounds, if_pos consistent]
  · have oursBefore : ∀ op ∈ before, op.isThresholdWrite → op ∈ writesOf new :=
      fun op inside => ours op (split ▸ List.mem_append_left _ inside)
    have held := thresholds_run_partWay oursBefore start
    rw [List.nil_append] at held
    have inForce := Bounds.Slots.active?_ofBounds (old.partWay new (before.filterMap Op.slot?))
    rw [← held] at inForce
    refine ⟨_, held, ?_⟩
    by_cases sound : (old.partWay new (before.filterMap Op.slot?)).Consistent
    · rw [if_pos sound] at inForce
      refine .inr ⟨sound.1, sound.2, _, _, judges_of_active event watched inForce, ?_⟩
      intro z oldPuts newPuts
      have puts := Bounds.puts_partWay oldPuts newPuts (before.filterMap Op.slot?)
      have allowed := puts.allows sound (run before m).2.policy (p.apply t)
      refine ⟨puts, ?_⟩
      cases t <;> cases z <;> exact allowed
    · rw [if_neg sound] at inForce
      exact .inl ⟨sound, ignores_of_inactive event watched inForce⟩

/-- One port is watched, and the bounds are 2 and 10. -/
def watchingPort : Monitor :=
  (run [.register (.port 1), .store ⟨2, 10, 2⟩] (new ⟨.latched, 16, 1, 8⟩)).2

/-- The bounds are changed to 20 and 30.  The first event finds 2, 10 and the new buffer length in
the slots, and the second one finds 20 and 10. -/
def bufferFirst : List Op :=
  [.writeSlot 2 1, .transition 0 (.port 1) .established, .writeSlot 0 20,
    .observe 1 (.tracepoint 1 1), .writeSlot 1 30]

theorem changeover_judges_alike_bufferFirst :
    watchingPort.thresholds.active? = some ⟨2, 10, 2⟩ ∧ Bounds.Consistent ⟨20, 30, 1⟩ ∧
      (bufferFirst.filter Op.isThresholdWrite).Perm (writesOf ⟨20, 30, 1⟩) ∧
      (run bufferFirst watchingPort).2.thresholds.active? = some ⟨20, 30, 1⟩ ∧
      (run [.writeSlot 2 1] watchingPort).2.registry.find? (.port 1) = some .zero ∧
      Bounds.Puts ⟨2, 10, 2⟩ 1 .low ∧ Bounds.Puts ⟨20, 30, 1⟩ 1 .low ∧
      ∃ after fired, (run [.writeSlot 2 1] watchingPort).2.Judges ⟨2, 10, 1⟩
        (.transition 0 (.port 1) .established) (.port 1) ⟨1, 0, false⟩ after fired ∧
        Bounds.Puts ⟨2, 10, 1⟩ 1 .low ∧ ∀ d ∈ fired, d = .scaleDown := by
  have active : watchingPort.thresholds.active? = some ⟨2, 10, 2⟩ := by decide +kernel
  have consistent : Bounds.Consistent ⟨20, 30, 1⟩ := by decide
  have writes : (bufferFirst.filter Op.isThresholdWrite).Perm (writesOf ⟨20, 30, 1⟩) :=
    (List.reverse_perm _).symm.trans (List.Perm.swap _ _ _)
  have watched : (run [.writeSlot 2 1] watchingPort).2.registry.find? (.port 1) = some .zero := by
    decide +kernel
  have oldPuts : Bounds.Puts ⟨2, 10, 2⟩ 1 .low := show (1 : UInt32) ≤ 2 by decide
  have newPuts : Bounds.Puts ⟨20, 30, 1⟩ 1 .low := show (1 : UInt32) ≤ 20 by decide
  obtain ⟨inForce, events⟩ := changeover_judges_alike active consistent writes
  obtain ⟨b, held, judged⟩ := events [.writeSlot 2 1] _ _ _ _ _ _ rfl rfl watched
  have slots : (run [.writeSlot 2 1] watchingPort).2.thresholds = .ofBounds ⟨2, 10, 1⟩ := by
    decide +kernel
  rw [slots] at held
  obtain rfl : ⟨2, 10, 1⟩ = b := Bounds.Slots.ofBounds_injective held
  rcases judged with ⟨unsound, -⟩ | ⟨-, -, after, fired, judges, alike⟩
  · exact absurd (by decide) unsound
  · obtain ⟨puts, allowed⟩ := alike .low oldPuts newPuts
    exact ⟨active, consistent, writes, inForce, watched, oldPuts, newPuts, after, fired, judges,
      puts, allowed⟩

end Monitor

end ScaleWatch
