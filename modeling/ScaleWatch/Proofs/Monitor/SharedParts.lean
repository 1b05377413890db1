import ScaleWatch.Proofs.Monitor.Effect

/-!
# The parts of a monitor that keys share

Besides what it does to keys and signals, an operation may write a threshold slot, and may take or
free a place of the registry.  `thresholds_step` and `numbers_step` say so of every operation.  Both
go through `transition_cases`: a transition that is not counted and dropped moves the count of its
key and judges it.  What a registration and a transition answer depends on these parts, too.
-/

namespace ScaleWatch.Monitor

theorem transition_cases (worker : Nat) (k : Key) (t : Transition) (m : Monitor) :
    m.transition worker k t = (none, { m with metrics := m.metrics.countUnwatched }) ∨
      m.transition worker k t = (none, { m with metrics := m.metrics.countUnconfigured }) ∨
      ∃ b count, m.transition worker k t =
        { (m.apply k t).2 with metrics := m.metrics.countProcessed }.evaluate worker k b count := by
  rcases watched : m.registry.find? k with _ | p
  · left
    have absent : ¬m.registry.contains k = true := by simp [Registry.contains, watched]
    rw [transition, if_neg absent]
  rcases active : m.thresholds.active? with _ | b
  · right
    left
    have present : m.registry.contains k = true := Registry.contains_iff.2 ⟨p, watched⟩
    rw [transition, if_pos present, active]
  · right
    right
    exact ⟨b, _, transition_of_watched watched active worker t⟩

/-! ### Answers -/

theorem answer_register (k : Key) (m : Monitor) :
    (m.step (.register k)).1 =
      if m.registry.contains k then .flag false
      else if m.registry.reserved < m.registry.capacity then .flag true
      else .refused (.registryFull m.registry.capacity) := by
  simp only [step, register, Registry.register]
  by_cases watched : m.registry.contains k = true
  · simp [watched, flagOrRefusal]
  · by_cases room : m.registry.reserved < m.registry.capacity
    · simp [watched, room, flagOrRefusal]
    · simp [watched, room, flagOrRefusal]

theorem find?_of_register {k : Key} {m : Monitor} (isNew : (m.step (.register k)).1 = .flag true) :
    (m.step (.register k)).2.registry.find? k = some .zero := by
  rw [answer_register] at isNew
  rw [(leads_step (.register k) m).find, effect]
  by_cases watched : m.registry.contains k = true
  · rw [if_pos watched] at isNew
    cases isNew
  by_cases room : m.registry.reserved < m.registry.capacity
  · rw [if_neg (by simp [watched, room]), Effect.on, if_pos rfl]
  · rw [if_neg watched, if_neg room] at isNew
    cases isNew

/-- An event fires what the judgement of its count fires, if there is one. -/
theorem fst_transition (worker : Nat) (k : Key) (t : Transition) (m : Monitor) :
    (m.transition worker k t).1 =
      match m.registry.find? k, m.thresholds.active? with
      | some p, some b => m.fired k (some t) b (p.apply t).count
      | _, _ => none := by
  rcases watched : m.registry.find? k with _ | p
  · obtain ⟨metrics, same⟩ := transition_of_idle (.inl watched) worker t
    rw [same]
  rcases active : m.thresholds.active? with _ | b
  · obtain ⟨metrics, same⟩ := transition_of_idle (.inr active) worker t
    rw [same]
  have judged : m.effectOfTransition worker k t = .judge worker k (some t) b (p.apply t).count := by
    rw [effectOfTransition, watched, active]
  exact answer_of_transition judged

/-! ### Threshold slots -/

/-- What becomes of the threshold slots. -/
def Op.onThresholds (s : Bounds.Slots) : Op → Bounds.Slots
  | store b => (s.store b).toOption.getD s
  | writeSlot index value => (s.write index value).toOption.getD s
  | _ => s

theorem thresholds_apply (k : Key) (t : Transition) (m : Monitor) :
    (m.apply k t).2.thresholds = m.thresholds := by
  rw [apply_eq_elim]

theorem thresholds_evaluate (worker : Nat) (k : Key) (b : Bounds) (count : UInt32) (m : Monitor) :
    (m.evaluate worker k b count).2.thresholds = m.thresholds := by
  unfold evaluate
  split <;> rfl

theorem thresholds_transition (worker : Nat) (k : Key) (t : Transition) (m : Monitor) :
    (m.transition worker k t).2.thresholds = m.thresholds := by
  rcases transition_cases worker k t m with h | h | ⟨b, count, h⟩
  · rw [h]
  · rw [h]
  · rw [h, thresholds_evaluate]
    exact thresholds_apply k t m

theorem thresholds_receive (m : Monitor) (f : Channel → Answer × Channel) :
    (m.receive f).2.thresholds = m.thresholds := by
  unfold receive
  split <;> rfl

theorem thresholds_step (op : Op) (m : Monitor) :
    (m.step op).2.thresholds = op.onThresholds m.thresholds := by
  cases op with
  | store b =>
    simp only [step, Monitor.store, Op.onThresholds]
    cases m.thresholds.store b <;> rfl
  | writeSlot index value =>
    simp only [step, Monitor.writeSlot, Op.onThresholds]
    cases m.thresholds.write index value <;> rfl
  | register k =>
    simp only [step, register]
    split <;> rfl
  | unregister k => rfl
  | clearGate k =>
    simp only [step, clearGate_eq_elim]
    rfl
  | stats k => rfl
  | apply k t => exact thresholds_apply k t m
  | evaluate worker k b count => exact thresholds_evaluate worker k b count m
  | transition worker k t => exact thresholds_transition worker k t m
  | observe worker o =>
    simp only [step, observe]
    split
    · exact thresholds_transition _ _ _ m
    · rfl
  | tryRecv => exact thresholds_receive m _
  | poll => exact thresholds_receive m _
  | drain => exact thresholds_receive m _
  | dropStream => rfl

/-! ### Places of the registry -/

/-- What becomes of the number of places taken. -/
def Effect.onReserved (m : Monitor) : Effect → Nat
  | watch _ => m.registry.reserved + 1
  | forget k => if m.registry.contains k then m.registry.reserved - 1 else m.registry.reserved
  | _ => m.registry.reserved

/-- There are as many places as before, and `reserved` of them are taken. -/
def HasNumbers (m after : Monitor) (reserved : Nat) : Prop :=
  after.registry.capacity = m.registry.capacity ∧ after.registry.reserved = reserved

theorem numbers_apply (k : Key) (t : Transition) (m : Monitor) :
    HasNumbers m (m.apply k t).2 m.registry.reserved := by
  rw [apply_eq_elim]
  exact Registry.numbers_elim_update k _ m.registry

theorem numbers_evaluate (worker : Nat) (k : Key) (b : Bounds) (count : UInt32) (m : Monitor) :
    HasNumbers m (m.evaluate worker k b count).2 m.registry.reserved := by
  obtain ⟨-, registry, -, -⟩ := evaluate_eq worker k b count m
  rw [HasNumbers, registry]
  exact Registry.numbers_elim_update k _ m.registry

theorem numbers_transition (worker : Nat) (k : Key) (t : Transition) (m : Monitor) :
    HasNumbers m (m.transition worker k t).2 m.registry.reserved := by
  rcases transition_cases worker k t m with h | h | ⟨b, count, h⟩
  · rw [h]
    exact ⟨rfl, rfl⟩
  · rw [h]
    exact ⟨rfl, rfl⟩
  · rw [h]
    have moved := numbers_apply k t m
    have judged := numbers_evaluate worker k b count
      { (m.apply k t).2 with metrics := m.metrics.countProcessed }
    exact ⟨judged.1.trans moved.1, judged.2.trans moved.2⟩

theorem onReserved_effectOfTransition (worker : Nat) (k : Key) (t : Transition) (m : Monitor) :
    (m.effectOfTransition worker k t).onReserved m = m.registry.reserved := by
  unfold effectOfTransition
  split <;> rfl

theorem numbers_register (k : Key) (m : Monitor) :
    HasNumbers m (m.register k).2 ((m.effect (.register k)).onReserved m) := by
  unfold HasNumbers register effect Registry.register
  by_cases watched : m.registry.contains k = true
  · simp [watched, Effect.onReserved]
  · by_cases room : m.registry.reserved < m.registry.capacity
    · simp [watched, room, Nat.not_le.2 room, Effect.onReserved]
    · simp [watched, room, Nat.not_lt.1 room, Effect.onReserved]

theorem numbers_unregister (k : Key) (m : Monitor) :
    HasNumbers m (m.unregister k).2 ((Effect.forget k).onReserved m) := by
  unfold HasNumbers unregister Registry.unregister
  by_cases watched : m.registry.contains k = true <;> simp [watched, Effect.onReserved]

theorem numbers_clearGate (k : Key) (m : Monitor) :
    HasNumbers m (m.clearGate k).2 m.registry.reserved := by
  rw [clearGate_eq_elim]
  exact Registry.numbers_elim_update k _ m.registry

theorem numbers_receive (m : Monitor) (f : Channel → Answer × Channel) (limit : Nat) :
    HasNumbers m (m.receive f).2
      ((if m.channel.streamOpen then Effect.take limit else .idle).onReserved m) := by
  have taken : (if m.channel.streamOpen then Effect.take limit else .idle).onReserved m =
      m.registry.reserved := by
    split <;> rfl
  rw [taken]
  unfold receive
  split <;> exact ⟨rfl, rfl⟩

theorem numbers_step (op : Op) (m : Monitor) :
    HasNumbers m (m.step op).2 ((m.effect op).onReserved m) := by
  cases op with
  | store b =>
    simp only [step, Monitor.store]
    cases m.thresholds.store b <;> exact ⟨rfl, rfl⟩
  | writeSlot index value =>
    simp only [step, Monitor.writeSlot]
    cases m.thresholds.write index value <;> exact ⟨rfl, rfl⟩
  | register k => exact numbers_register k m
  | unregister k => exact numbers_unregister k m
  | clearGate k => exact numbers_clearGate k m
  | stats k => exact ⟨rfl, rfl⟩
  | apply k t => exact numbers_apply k t m
  | evaluate worker k b count => exact numbers_evaluate worker k b count m
  | transition worker k t =>
    rw [effect, onReserved_effectOfTransition]
    exact numbers_transition worker k t m
  | observe worker o =>
    simp only [step, observe, effect]
    rcases o.transition? with _ | ⟨k, t⟩
    · exact ⟨rfl, rfl⟩
    · simp only [onReserved_effectOfTransition]
      exact numbers_transition worker k t m
  | tryRecv => exact numbers_receive m _ _
  | poll => exact numbers_receive m _ _
  | drain => exact numbers_receive m _ _
  | dropStream => exact ⟨rfl, rfl⟩

end ScaleWatch.Monitor
