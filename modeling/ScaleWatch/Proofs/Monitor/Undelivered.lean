import Mathlib.Data.List.Perm.Subperm
import ScaleWatch.Proofs.Channel.Traffic
import ScaleWatch.Proofs.Monitor.Sending
import ScaleWatch.Proofs.Registry.BoundedMap

/-!
# One undelivered signal per key

Under the latching policy a key that has fired is silent until its gate is cleared or it is
registered anew.  If that never happens while a signal of the key is queued, no second signal of it
comes to be queued: the queued signals are of different keys, each with its gate held
(`Undelivered`).  So there never are more of them than keys, and slots that hold as many signals as
there may be keys never are full when a signal comes (`one_undelivered_per_key`).
-/

namespace ScaleWatch.Monitor

/-- No gate is cleared and no key unregistered while a signal of the key is queued. -/
def SparesQueued : List Op → Monitor → Prop
  | [], _ => True
  | op :: ops, m =>
    (∀ s ∈ m.channel.queued, op.frees s.key = false) ∧ SparesQueued ops (m.step op).2

def decideSparesQueued : (ops : List Op) → (m : Monitor) → Decidable (SparesQueued ops m)
  | [], _ => .isTrue trivial
  | op :: ops, m =>
    have := decideSparesQueued ops (m.step op).2
    inferInstanceAs (Decidable (_ ∧ _))

instance (ops : List Op) (m : Monitor) : Decidable (SparesQueued ops m) :=
  decideSparesQueued ops m

/-- The queued signals are of different keys, and each key waits with its gate held. -/
structure Undelivered (m : Monitor) : Prop where
  apart : (m.channel.queued.map (·.key)).Nodup
  held : ∀ s ∈ m.channel.queued, m.Holds s.key

section Step

variable {op : Op} {m : Monitor} {capacity : Nat}

/-- From the receiving end, a channel changes by signals that are taken, or is closed. -/
theorem channel_of_isOnStream (stream : op.isOnStream = true) (m : Monitor) :
    op = .dropStream ∧ (m.step op).2.channel = m.channel.dropStream ∨
      op ≠ .dropStream ∧
        ∃ limit, (m.step op).2.channel = (Channel.drainUpTo limit m.channel).2 := by
  have taken : ∀ limit, ∃ n,
      (if m.channel.streamOpen then Effect.take limit else .idle).onChannel m =
        (Channel.drainUpTo n m.channel).2 := by
    intro limit
    split
    · exact ⟨limit, rfl⟩
    · exact ⟨0, rfl⟩
  rw [(leads_step op m).channel]
  cases op with
  | tryRecv => exact .inr ⟨nofun, taken 1⟩
  | poll => exact .inr ⟨nofun, taken 1⟩
  | drain => exact .inr ⟨nofun, taken _⟩
  | dropStream => exact .inl ⟨rfl, rfl⟩
  | _ => cases stream

/-- What is queued after an operation was queued before, or has just been sent. -/
theorem queued_step (op : Op) (m : Monitor) :
    (m.step op).2.channel.queued.Subperm ((m.sent? op).toList ++ m.channel.queued) := by
  by_cases stream : op.isOnStream = true
  · refine List.Subperm.trans ?_ (List.sublist_append_right _ _).subperm
    rcases channel_of_isOnStream stream m with ⟨-, closed⟩ | ⟨-, limit, taken⟩
    · have empty : m.channel.dropStream.queued = [] :=
        List.eq_nil_of_length_eq_zero (Channel.pending_dropStream m.channel)
      rw [closed, empty]
      exact List.nil_subperm
    · rw [taken]
      exact (List.sublist_append_right _ _).subperm.trans
        (Channel.perm_drainUpTo limit m.channel).subperm
  · rw [channel_step (by simpa using stream)]
    rcases m.sent? op with _ | s
    · exact .refl _
    · by_cases accepts : m.channel.accepts op.worker = true
      · exact (Channel.emit_of_accepts _ s _ accepts).2.2.subperm
      · rw [Option.elim_some, Channel.emit_of_refuses _ s _ (by simpa using accepts)]
        exact (List.sublist_cons_self _ _).subperm

/-- Only closing the stream closes it, and nothing changes how much a slot holds. -/
theorem openness_step (kept : op ≠ .dropStream) :
    (m.step op).2.channel.streamOpen = m.channel.streamOpen ∧
      (m.step op).2.channel.capacity = m.channel.capacity := by
  by_cases stream : op.isOnStream = true
  · rcases channel_of_isOnStream stream m with ⟨closes, -⟩ | ⟨-, limit, taken⟩
    · exact absurd closes kept
    · rw [taken]
      exact ⟨(Channel.drainUpTo_spec limit _).2, (Channel.sameSize_drainUpTo limit _).1.2⟩
  · rw [channel_step (by simpa using stream)]
    rcases m.sent? op with _ | s
    · exact ⟨rfl, rfl⟩
    · refine ⟨Channel.streamOpen_emit _ _ _, ?_⟩
      simp only [Option.elim_some, Channel.emit]
      split <;> rfl

theorem counted_elim_update {α : Type} (h : m.registry.Counted capacity) (k : Key)
    (f : Pressure → α × Pressure) :
    ((m.registry.update k f).elim m.registry (·.2)).Counted capacity := by
  rcases updated : m.registry.update k f with _ | ⟨a, r⟩
  · exact h
  · exact h.of_update updated

theorem counted_evaluate (h : m.registry.Counted capacity) (worker : Nat) (k : Key) (b : Bounds)
    (count : UInt32) : (m.evaluate worker k b count).2.registry.Counted capacity := by
  rw [(evaluate_eq worker k b count m).2.1]
  exact counted_elim_update h k _

theorem counted_transition (h : m.registry.Counted capacity) (worker : Nat) (k : Key)
    (t : Transition) : (m.transition worker k t).2.registry.Counted capacity := by
  rcases transition_cases worker k t m with same | same | ⟨b, count, same⟩
  · rw [same]
    exact h
  · rw [same]
    exact h
  · rw [same, apply_eq_elim]
    exact counted_evaluate (counted_elim_update h k _) worker k b count

/-- The registry stays a map of at most `capacity` keys. -/
theorem counted_step (h : m.registry.Counted capacity) (op : Op) :
    (m.step op).2.registry.Counted capacity := by
  cases op with
  | register k =>
    simp only [step, register]
    rcases registered : m.registry.register k with fault | ⟨isNew, r⟩
    · exact h
    · exact h.of_register registered
  | unregister k => exact (h.unregister k).1
  | clearGate k =>
    simp only [step, clearGate_eq_elim]
    exact counted_elim_update h k _
  | apply k t =>
    simp only [step, apply_eq_elim]
    exact counted_elim_update h k _
  | evaluate worker k b count => exact counted_evaluate h worker k b count
  | transition worker k t => exact counted_transition h worker k t
  | observe worker o =>
    simp only [step, observe]
    split
    · exact counted_transition h worker _ _
    · exact h
  | store b =>
    simp only [step, Monitor.store]
    cases m.thresholds.store b <;> exact h
  | writeSlot index value =>
    simp only [step, Monitor.writeSlot]
    cases m.thresholds.write index value <;> exact h
  | stats k => exact h
  | tryRecv => simp only [step, receive]; split <;> exact h
  | poll => simp only [step, receive]; split <;> exact h
  | drain => simp only [step, receive]; split <;> exact h
  | dropStream => exact h

/-- A key that fires is watched, and none of its signals is queued. -/
theorem Undelivered.fresh (h : Undelivered m) {s : Signal} (sent : m.sent? op = some s) :
    m.registry.contains s.key = true ∧ s.key ∉ m.channel.queued.map (·.key) := by
  have firing : m.firing? op = some (s.key, s.direction) := by rw [firing?_eq_sent?, sent]; rfl
  refine ⟨?_, fun inside => ?_⟩
  · obtain ⟨t, b, count, -, fired, -⟩ := judge_of_sent? sent
    obtain ⟨p, watched, -⟩ := Option.bind_eq_some_iff.1 fired
    exact Registry.contains_iff.2 ⟨p, watched⟩
  · obtain ⟨s', queued, same⟩ := List.mem_map.1 inside
    exact not_holds_of_firing firing (same ▸ h.held s' queued)

theorem Undelivered.step (h : Undelivered m) (latched : m.policy = .latched)
    (spares : ∀ s ∈ m.channel.queued, op.frees s.key = false) : Undelivered (m.step op).2 := by
  have queued := queued_step op m
  have apart : (((m.sent? op).toList ++ m.channel.queued).map (·.key)).Nodup := by
    rcases sent : m.sent? op with _ | s
    · exact h.apart
    · exact List.nodup_cons.2 ⟨(h.fresh sent).2, h.apart⟩
  obtain ⟨signals, same, part⟩ := queued
  refine ⟨(same.map _).nodup_iff.1 (apart.sublist (part.map _)), fun s inside => ?_⟩
  rcases List.mem_append.1 (part.subset (same.mem_iff.2 inside)) with new | old
  · refine holds_of_firing latched (d := s.direction) ?_
    rw [firing?_eq_sent?, Option.mem_toList.1 new]
    rfl
  · exact holds_step (h.held s old) (spares s old)

/-- A signal that is sent finds fewer signals queued than there may be keys. -/
theorem Undelivered.pending_lt (h : Undelivered m) (counted : m.registry.Counted capacity)
    {s : Signal} (sent : m.sent? op = some s) : m.channel.pending < capacity := by
  obtain ⟨watched, fresh⟩ := h.fresh sent
  have keys : s.key :: m.channel.queued.map (·.key) ⊆ m.registry.keys := by
    intro k inside
    rw [m.registry.mem_keys_iff]
    rcases List.mem_cons.1 inside with rfl | old
    · exact watched
    · obtain ⟨s', queued, rfl⟩ := List.mem_map.1 old
      obtain ⟨p, found, -⟩ := h.held s' queued
      exact Registry.contains_iff.2 ⟨p, found⟩
  have few := (List.subperm_of_subset (List.nodup_cons.2 ⟨fresh, h.apart⟩) keys).length_le
  rw [List.length_cons, List.length_map] at few
  exact Nat.lt_of_lt_of_le few counted.bounded

/-- A slot that could hold all signals that are queued takes one more. -/
theorem accepts_of_pending_lt {c : Channel} (isOpen : c.streamOpen = true)
    (room : c.pending < c.capacity) (worker : Nat) : c.accepts worker = true := by
  have part : (c.queue (worker % c.slots.length)).length ≤ c.pending := by
    rw [Channel.queue_eq_getElem (Nat.mod_lt _ c.slots_pos)]
    exact (List.sublist_flatten_of_mem (List.getElem_mem _)).length_le
  simp only [Channel.accepts, isOpen, true_and, decide_eq_true_eq]
  exact Nat.lt_of_le_of_lt part room

/-- A signal for which there is room is not dropped. -/
theorem dropped_step (accepts : ∀ s, m.sent? op = some s → m.channel.accepts op.worker = true) :
    (m.step op).2.metrics.signalsDropped = m.metrics.signalsDropped := by
  have none_dropped : (m.postings op).count .dropped = 0 := by
    rw [count_dropped_eq]
    refine if_neg fun refused => ?_
    obtain ⟨s, sent⟩ := Option.isSome_iff_exists.1 refused.1
    rw [accepts s sent] at refused
    cases refused.2
  have value := Metrics.value_foldl_post .dropped (m.postings op) m.metrics
  rw [none_dropped, ← metrics_step] at value
  exact value.trans (UInt64.add_zero _)

end Step

/-! ### Whole runs -/

section Run

variable {m : Monitor} {ops later : List Op} {capacity : Nat}

theorem SparesQueued.of_append (h : SparesQueued (ops ++ later) m) : SparesQueued ops m := by
  induction ops generalizing m with
  | nil => trivial
  | cons op ops ih => exact ⟨h.1, ih h.2⟩

theorem Undelivered.run (h : Undelivered m) (latched : m.policy = .latched)
    (spares : SparesQueued ops m) : Undelivered (run ops m).2 := by
  induction ops generalizing m with
  | nil => exact h
  | cons op ops ih =>
    exact ih (h.step latched spares.1) ((leads_step op m).policy.trans latched) spares.2

theorem Undelivered.dropped_run (h : Undelivered m) (latched : m.policy = .latched)
    (spares : SparesQueued ops m) (kept : .dropStream ∉ ops)
    (counted : m.registry.Counted capacity) (isOpen : m.channel.streamOpen = true)
    (room : capacity ≤ m.channel.capacity) :
    (Monitor.run ops m).2.metrics.signalsDropped = m.metrics.signalsDropped := by
  induction ops generalizing m with
  | nil => rfl
  | cons op ops ih =>
    rw [List.mem_cons, not_or] at kept
    obtain ⟨still, same⟩ := openness_step (m := m) (Ne.symm kept.1)
    have rest := ih (h.step latched spares.1) ((leads_step op m).policy.trans latched) spares.2
      kept.2 (counted_step counted op) (still.trans isOpen) (same ▸ room)
    refine rest.trans (dropped_step fun s sent => ?_)
    exact accepts_of_pending_lt isOpen (Nat.lt_of_lt_of_le (h.pending_lt counted sent) room) _

end Run

theorem undelivered_new (settings : Settings) : Undelivered (new settings) := by
  have empty : (new settings).channel.queued = [] := by simp [new, Channel.new, Channel.queued]
  exact ⟨by simp [empty], by simp [empty]⟩

/-- In a run under the latching policy in which no gate is cleared and no key unregistered while a
signal of the key is queued, the queued signals are at every moment of different keys, each of which
is registered with its gate held.  So if the stream is not closed and a slot holds as many signals
as there may be keys, no signal is ever dropped. -/
theorem one_undelivered_per_key (settings : Settings) (latched : settings.policy = .latched)
    (ops : List Op) (spares : SparesQueued ops (new settings)) :
    (∀ before, before <+: ops →
      let m := (run before (new settings)).2
      (m.channel.queued.map (·.key)).Nodup ∧ ∀ s ∈ m.channel.queued, m.Holds s.key) ∧
    (.dropStream ∉ ops → settings.maxKeys ≤ settings.slotCapacity →
      ∀ before, before <+: ops → (run before (new settings)).2.metrics.signalsDropped = 0) := by
  have start := undelivered_new settings
  constructor
  · rintro before ⟨later, rfl⟩
    have undelivered := start.run latched spares.of_append
    exact ⟨undelivered.apart, undelivered.held⟩
  · rintro kept enough before ⟨later, rfl⟩
    have room : settings.maxKeys ≤ max 1 settings.slotCapacity :=
      Nat.le_trans enough (Nat.le_max_right _ _)
    exact start.dropped_run latched spares.of_append
      (fun inside => kept (List.mem_append_left _ inside)) (Registry.counted_empty _) rfl room

/-- Two keys fire on two slots; the signal of one is taken, its gate is cleared, and it fires on the
slot where the other is still queued. -/
def slotFilled : List Op :=
  [.store ⟨2, 10, 1⟩, .register (.port 1), .register (.port 2), .transition 0 (.port 1) .closed,
    .evaluate 1 (.port 2) ⟨2, 10, 1⟩ 11, .transition 0 (.port 1) .closed, .poll,
    .clearGate (.port 1), .transition 1 (.port 1) .closed]

/-- That slot is then full, and it holds a signal of each key. -/
theorem one_undelivered_per_key_slotFilled :
    SparesQueued slotFilled (new ⟨.latched, 2, 2, 2⟩) ∧ .dropStream ∉ slotFilled ∧
      (run slotFilled (new ⟨.latched, 2, 2, 2⟩)).2.channel.slots =
        [[], [⟨.port 2, .scaleUp, some 1⟩, ⟨.port 1, .scaleDown, some 1⟩]] ∧
      ((run slotFilled (new ⟨.latched, 2, 2, 2⟩)).2.channel.queued.map (·.key)).Nodup ∧
      (∀ s ∈ (run slotFilled (new ⟨.latched, 2, 2, 2⟩)).2.channel.queued,
        (run slotFilled (new ⟨.latched, 2, 2, 2⟩)).2.Holds s.key) ∧
      (run slotFilled (new ⟨.latched, 2, 2, 2⟩)).2.metrics.signalsDropped = 0 := by
  have spares : SparesQueued slotFilled (new ⟨.latched, 2, 2, 2⟩) := by decide +kernel
  have kept : .dropStream ∉ slotFilled := by decide +kernel
  obtain ⟨apart, undropped⟩ := one_undelivered_per_key ⟨.latched, 2, 2, 2⟩ rfl slotFilled spares
  obtain ⟨different, held⟩ := apart slotFilled List.prefix_rfl
  exact ⟨spares, kept, by decide +kernel, different, held,
    undropped kept (Nat.le_refl 2) slotFilled List.prefix_rfl⟩

end ScaleWatch.Monitor
