import ScaleWatch.Proofs.Monitor.SharedParts

/-!
# Keys do not interfere

The keys of a monitor share its registry, its threshold slots, its channel and its metrics.  To one
key none of this shows.  `run_filter_concerns` deletes from a run everything that is about another
key or the stream, and finds the answers to what is left, and the pressure on the key, as they
were; only a registration that is refused because other keys have taken all places shows that they
are there.

What carries the proof is `AlikeTo`: two monitors look the same to the key, and in the second one
nobody else has taken a place.
-/

namespace ScaleWatch.Monitor

/-! ### What an operation is about -/

/-- The key that an operation names. -/
def Op.key? : Op → Option Key
  | register k | unregister k | clearGate k | stats k => some k
  | apply k _ | evaluate _ k _ _ | transition _ k _ => some k
  | observe _ o => some o.key
  | store _ | writeSlot _ _ | tryRecv | poll | drain | dropStream => none

def Op.isOnStream : Op → Bool
  | tryRecv | poll | drain | dropStream => true
  | _ => false

/-- The operation names no other key, and is none on the stream. -/
def Op.concerns (k : Key) (op : Op) : Bool :=
  op.key?.all (· = k) && !op.isOnStream

deriving instance DecidableEq for Op

/-! ### Answers and effects -/

theorem answer_unregister (k : Key) (m : Monitor) :
    (m.step (.unregister k)).1 = .flag (m.registry.contains k) := by
  simp only [step, unregister, Registry.unregister]
  by_cases watched : m.registry.contains k = true <;> simp [watched]

theorem answer_clearGate (k : Key) (m : Monitor) :
    (m.step (.clearGate k)).1 =
      match m.registry.find? k with
      | some p => .flag p.gated
      | none => .refused (.unknownKey k) := by
  simp only [step, clearGate, Registry.clearGate, Registry.update]
  cases m.registry.find? k <;> rfl

theorem answer_apply (k : Key) (t : Transition) (m : Monitor) :
    (m.step (.apply k t)).1 = .count ((m.registry.find? k).map fun p => (p.apply t).count) := by
  simp only [step, apply, Registry.update]
  cases m.registry.find? k <;> rfl

/-- Operations that concern other keys, and those on the stream, leave the pressure on this one. -/
theorem on_of_not_concerns {k : Key} {op : Op} (other : op.concerns k = false) (m : Monitor)
    (p : Option Pressure) : (m.effect op).on m.policy k p = p := by
  have elsewhere : ∀ k', op.key? = some k' → op.isOnStream = false → ¬k = k' := by
    intro k' named direct same
    rw [Op.concerns, named, direct, same] at other
    simp at other
  have judged : ∀ worker k' t, ¬k = k' →
      (m.effectOfTransition worker k' t).on m.policy k p = p := by
    intro worker k' t ne
    unfold effectOfTransition
    split
    · exact if_neg ne
    · rfl
  cases op with
  | store b => rfl
  | writeSlot index value => rfl
  | stats k' => rfl
  | dropStream => rfl
  | register k' =>
    rw [effect]
    split
    · rfl
    · exact if_neg (elsewhere k' rfl rfl)
  | unregister k' => exact if_neg (elsewhere k' rfl rfl)
  | clearGate k' => exact if_neg (elsewhere k' rfl rfl)
  | apply k' t => exact if_neg (elsewhere k' rfl rfl)
  | evaluate worker k' b count => exact if_neg (elsewhere k' rfl rfl)
  | transition worker k' t => exact judged worker k' t (elsewhere k' rfl rfl)
  | observe worker o =>
    have ne := elsewhere o.key rfl rfl
    rw [effect, Observation.transition?]
    rcases Tcp.classify o.state with _ | t
    · rfl
    · exact judged worker o.key t ne
  | tryRecv => rw [effect]; split <;> rfl
  | poll => rw [effect]; split <;> rfl
  | drain => rw [effect]; split <;> rfl

/-- Neither watching nor forgetting. -/
def Effect.KeepsKeys : Effect → Prop
  | watch _ | forget _ => False
  | _ => True

theorem Effect.KeepsKeys.onReserved {e : Effect} (h : e.KeepsKeys) (m : Monitor) :
    e.onReserved m = m.registry.reserved := by
  cases e with
  | watch k => exact h.elim
  | forget k => exact h.elim
  | _ => rfl

theorem Effect.KeepsKeys.isSome_on {e : Effect} (h : e.KeepsKeys) (policy : GatePolicy) (k : Key)
    (p : Option Pressure) : (e.on policy k p).isSome = p.isSome := by
  cases e with
  | watch k' => exact h.elim
  | forget k' => exact h.elim
  | release k' => simp only [Effect.on]; split <;> simp
  | move k' t => simp only [Effect.on]; split <;> simp
  | judge worker k' t b count => simp only [Effect.on]; split <;> simp
  | _ => rfl

theorem keepsKeys_effectOfTransition (worker : Nat) (k : Key) (t : Transition) (m : Monitor) :
    (m.effectOfTransition worker k t).KeepsKeys := by
  unfold effectOfTransition
  split <;> trivial

/-- Which keys are watched changes only by registering one that is not, and by unregistering. -/
theorem effect_cases (op : Op) (m : Monitor) :
    (∃ k, op = .register k ∧ m.effect op = .watch k ∧ m.registry.contains k = false) ∨
      (∃ k, op = .unregister k ∧ m.effect op = .forget k) ∨ (m.effect op).KeepsKeys := by
  cases op with
  | register k =>
    by_cases stays : m.registry.contains k ∨ m.registry.capacity ≤ m.registry.reserved
    · right
      right
      rw [effect, if_pos stays]
      trivial
    · left
      refine ⟨k, rfl, if_neg stays, ?_⟩
      rw [not_or] at stays
      simpa using stays.1
  | unregister k => exact .inr (.inl ⟨k, rfl, rfl⟩)
  | transition worker k t => exact .inr (.inr (keepsKeys_effectOfTransition worker k t m))
  | observe worker o =>
    right
    right
    rw [effect]
    rcases o.transition? with _ | ⟨k, t⟩
    · trivial
    · exact keepsKeys_effectOfTransition worker k t m
  | tryRecv => right; right; rw [effect]; split <;> trivial
  | poll => right; right; rw [effect]; split <;> trivial
  | drain => right; right; rw [effect]; split <;> trivial
  | _ => exact .inr (.inr trivial)

/-! ### What a key sees of a monitor -/

/-- To the key, both monitors look the same. -/
structure SameTo (k : Key) (m m' : Monitor) : Prop where
  find : m'.registry.find? k = m.registry.find? k
  thresholds : m'.thresholds = m.thresholds
  policy : m'.policy = m.policy

theorem eq_of_concerns {k k' : Key} {op : Op} (concerns : op.concerns k = true)
    (named : op.key? = some k') : k' = k := by
  rw [Op.concerns, named] at concerns
  simp at concerns
  exact concerns.1

section Same

variable {k : Key} {m m' : Monitor} {op : Op}

theorem SameTo.contains (h : SameTo k m m') : m'.registry.contains k = m.registry.contains k := by
  rw [Registry.contains, Registry.contains, h.find]

theorem SameTo.fired_eq (h : SameTo k m m') (t : Option Transition) (b : Bounds)
    (count : UInt32) : m'.fired k t b count = m.fired k t b count := by
  rw [fired, fired, h.find, h.policy]

/-- A registration with the same answer has the same effect. -/
theorem SameTo.effect_register (h : SameTo k m m')
    (answer : (m'.step (.register k)).1 = (m.step (.register k)).1) :
    m'.effect (.register k) = m.effect (.register k) := by
  rw [answer_register, answer_register, h.contains] at answer
  rw [effect, effect, h.contains]
  by_cases watched : m.registry.contains k = true
  · simp [watched]
  by_cases room : m.registry.reserved < m.registry.capacity <;>
    by_cases room' : m'.registry.reserved < m'.registry.capacity <;>
    simp_all [Nat.not_le.2]

theorem SameTo.transition_eq (h : SameTo k m m') (worker : Nat) (t : Transition) :
    (m'.transition worker k t).1 = (m.transition worker k t).1 ∧
      m'.effectOfTransition worker k t = m.effectOfTransition worker k t := by
  have fired := h.fired_eq (some t)
  rw [fst_transition, fst_transition, effectOfTransition, effectOfTransition, h.find, h.thresholds]
  simp only [fired, and_self]

/-- What concerns the key is answered alike and has the same effect, if places are given alike. -/
theorem SameTo.step_eq (h : SameTo k m m') (concerns : op.concerns k = true)
    (admitted : op = .register k → (m'.step op).1 = (m.step op).1) :
    (m'.step op).1 = (m.step op).1 ∧ m'.effect op = m.effect op := by
  cases op with
  | store b =>
    refine ⟨?_, rfl⟩
    simp only [step, Monitor.store, h.thresholds]
    cases m.thresholds.store b <;> rfl
  | writeSlot index value =>
    refine ⟨?_, rfl⟩
    simp only [step, Monitor.writeSlot, h.thresholds]
    cases m.thresholds.write index value <;> rfl
  | register k' =>
    cases eq_of_concerns concerns rfl
    exact ⟨admitted rfl, h.effect_register (admitted rfl)⟩
  | unregister k' =>
    cases eq_of_concerns concerns rfl
    rw [answer_unregister, answer_unregister, h.contains]
    exact ⟨rfl, rfl⟩
  | clearGate k' =>
    cases eq_of_concerns concerns rfl
    rw [answer_clearGate, answer_clearGate, h.find]
    exact ⟨rfl, rfl⟩
  | stats k' =>
    cases eq_of_concerns concerns rfl
    refine ⟨?_, rfl⟩
    simp only [step, stats?, Registry.stats?, h.find]
  | apply k' t =>
    cases eq_of_concerns concerns rfl
    rw [answer_apply, answer_apply, h.find]
    exact ⟨rfl, rfl⟩
  | evaluate worker k' b count =>
    cases eq_of_concerns concerns rfl
    have answer : ∀ m : Monitor, (m.step (.evaluate worker k b count)).1 =
        .signal (m.fired k none b count) := fun m => answer_of_judge rfl
    rw [answer, answer, h.fired_eq]
    exact ⟨rfl, rfl⟩
  | transition worker k' t =>
    cases eq_of_concerns concerns rfl
    obtain ⟨answer, effect⟩ := h.transition_eq worker t
    exact ⟨congrArg Answer.signal answer, effect⟩
  | observe worker o =>
    have here := eq_of_concerns concerns rfl
    simp only [step, observe, effect, Observation.transition?, here]
    rcases Tcp.classify o.state with _ | t
    · exact ⟨rfl, rfl⟩
    · obtain ⟨answer, effect⟩ := h.transition_eq worker t
      exact ⟨congrArg Answer.signal answer, effect⟩
  | tryRecv => cases concerns
  | poll => cases concerns
  | drain => cases concerns
  | dropStream => cases concerns

theorem SameTo.step_both (h : SameTo k m m') (concerns : op.concerns k = true)
    (admitted : op = .register k → (m'.step op).1 = (m.step op).1) :
    SameTo k (m.step op).2 (m'.step op).2 := by
  have effect := (h.step_eq concerns admitted).2
  have leads := leads_step op m
  have leads' := leads_step op m'
  refine ⟨?_, ?_, ?_⟩
  · rw [leads.find, leads'.find, effect, h.policy, h.find]
  · rw [thresholds_step, thresholds_step, h.thresholds]
  · rw [leads.policy, leads'.policy, h.policy]

/-- What does not concern the key does not show to it. -/
theorem sameTo_step_other (other : op.concerns k = false) (m : Monitor) :
    SameTo k m (m.step op).2 := by
  have leads := leads_step op m
  have untouched : op.onThresholds m.thresholds = m.thresholds := by
    cases op with
    | store b => cases other
    | writeSlot index value => cases other
    | _ => rfl
  refine ⟨?_, ?_, leads.policy⟩
  · rw [leads.find, on_of_not_concerns other]
  · rw [thresholds_step, untouched]

theorem SameTo.symm (h : SameTo k m m') : SameTo k m' m :=
  ⟨h.find.symm, h.thresholds.symm, h.policy.symm⟩

theorem SameTo.trans {m'' : Monitor} (h : SameTo k m m') (h' : SameTo k m' m'') :
    SameTo k m m'' :=
  ⟨h'.find.trans h.find, h'.thresholds.trans h.thresholds, h'.policy.trans h.policy⟩

end Same

/-! ### What one step keeps -/

/-- To the key, both monitors look the same; in the second one it is alone. -/
structure AlikeTo (k : Key) (m own : Monitor) : Prop where
  find : own.registry.find? k = m.registry.find? k
  thresholds : own.thresholds = m.thresholds
  policy : own.policy = m.policy
  capacity : own.registry.capacity = m.registry.capacity
  alone : own.registry.reserved = if own.registry.contains k then 1 else 0

/-- If the operation registers the key, it is not refused for lack of a place. -/
def Admits (k : Key) (op : Op) (m : Monitor) : Prop :=
  op = .register k → (m.step op).1 ≠ .refused (.registryFull m.registry.capacity)

theorem alikeTo_new (s : Settings) (k : Key) : AlikeTo k (new s) (new s) :=
  ⟨rfl, rfl, rfl, rfl, rfl⟩

section Alike

variable {k : Key} {m own : Monitor} {op : Op}

theorem AlikeTo.same (h : AlikeTo k m own) : SameTo k m own :=
  ⟨h.find, h.thresholds, h.policy⟩

/-- A place that the first monitor has for the key, the second one has, too. -/
theorem AlikeTo.room (h : AlikeTo k m own) (absent : m.registry.contains k = false)
    (admits : Admits k (.register k) m) :
    m.registry.reserved < m.registry.capacity ∧ own.registry.reserved < own.registry.capacity := by
  have room : m.registry.reserved < m.registry.capacity := by
    by_contra full
    apply admits rfl
    rw [answer_register, absent, if_neg Bool.false_ne_true, if_neg full]
  have free : own.registry.reserved = 0 := by
    rw [h.alone, h.same.contains, absent, if_neg Bool.false_ne_true]
  have capacity := h.capacity
  omega

theorem AlikeTo.answer_register (h : AlikeTo k m own) (admits : Admits k (.register k) m) :
    (own.step (.register k)).1 = (m.step (.register k)).1 := by
  rw [Monitor.answer_register, Monitor.answer_register, h.same.contains]
  by_cases watched : m.registry.contains k = true
  · simp [watched]
  · have absent : m.registry.contains k = false := by simpa using watched
    obtain ⟨room, ownRoom⟩ := h.room absent admits
    simp [absent, room, ownRoom]

theorem AlikeTo.step_eq (h : AlikeTo k m own) (concerns : op.concerns k = true)
    (admits : Admits k op m) : (own.step op).1 = (m.step op).1 ∧ own.effect op = m.effect op := by
  refine h.same.step_eq concerns ?_
  rintro rfl
  exact h.answer_register admits

/-- The key stays alone where nothing but its own operations is done. -/
theorem AlikeTo.alone_step (h : AlikeTo k m own) (concerns : op.concerns k = true) :
    (own.step op).2.registry.reserved = if (own.step op).2.registry.contains k then 1 else 0 := by
  have reserved := (numbers_step op own).2
  have find := (leads_step op own).find k
  have alone := h.alone
  rw [Registry.contains] at alone ⊢
  rw [reserved, find]
  rcases effect_cases op own with ⟨k', rfl, effect, absent⟩ | ⟨k', rfl, effect⟩ | keeps
  · cases eq_of_concerns concerns rfl
    rw [Registry.contains] at absent
    rw [effect, Effect.onReserved, alone, absent]
    simp [Effect.on]
  · cases eq_of_concerns concerns rfl
    have freed : (Effect.forget k).onReserved own = 0 := by
      rw [Effect.onReserved, Registry.contains, alone]
      split <;> rfl
    rw [effect, freed]
    simp [Effect.on]
  · rw [keeps.onReserved, keeps.isSome_on, alone]

theorem AlikeTo.step_own (h : AlikeTo k m own) (concerns : op.concerns k = true)
    (admits : Admits k op m) : AlikeTo k (m.step op).2 (own.step op).2 := by
  have answer := (h.step_eq concerns admits).1
  obtain ⟨find, thresholds, policy⟩ := h.same.step_both concerns fun _ => answer
  refine ⟨find, thresholds, policy, ?_, h.alone_step concerns⟩
  rw [(numbers_step op m).1, (numbers_step op own).1, h.capacity]

theorem AlikeTo.step_other (h : AlikeTo k m own) (other : op.concerns k = false) :
    AlikeTo k (m.step op).2 own := by
  obtain ⟨find, thresholds, policy⟩ := (sameTo_step_other other m).symm.trans h.same
  refine ⟨find, thresholds, policy, ?_, h.alone⟩
  rw [(numbers_step op m).1, h.capacity]

/-! ### What a whole run keeps -/

theorem AlikeTo.run (h : AlikeTo k m own) {ops : List Op}
    (admitted : (Op.register k, Answer.refused (.registryFull m.registry.capacity)) ∉
      ops.zip (run ops m).1) :
    (Monitor.run (ops.filter (Op.concerns k)) own).1 =
        ((ops.zip (Monitor.run ops m).1).filter (·.1.concerns k)).map (·.2) ∧
      AlikeTo k (Monitor.run ops m).2 (Monitor.run (ops.filter (Op.concerns k)) own).2 := by
  induction ops generalizing m own with
  | nil => exact ⟨rfl, h⟩
  | cons op ops ih =>
    rw [Monitor.run, List.zip_cons_cons, List.mem_cons, not_or] at admitted
    obtain ⟨first, rest⟩ := admitted
    have admits : Admits k op m := by
      intro named refused
      exact first (Prod.ext named.symm refused.symm)
    rw [← (numbers_step op m).1] at rest
    rw [Monitor.run, List.zip_cons_cons]
    by_cases concerns : op.concerns k = true
    · obtain ⟨answers, alike⟩ := ih (h.step_own concerns admits) rest
      have answer := (h.step_eq concerns admits).1
      rw [List.filter_cons_of_pos concerns,
        List.filter_cons_of_pos (p := fun x : Op × Answer => x.1.concerns k) concerns]
      exact ⟨congrArg₂ List.cons answer answers, alike⟩
    · have other : op.concerns k = false := by simpa using concerns
      obtain ⟨answers, alike⟩ := ih (h.step_other other) rest
      rw [List.filter_cons_of_neg concerns,
        List.filter_cons_of_neg (p := fun x : Op × Answer => x.1.concerns k) concerns]
      exact ⟨answers, alike⟩

end Alike

/-- What is done to other keys and to the stream makes no difference to a key: without it, all other
operations have the answers that they had, and the pressure on the key is the same in the end. -/
theorem run_filter_concerns (settings : Settings) (ops : List Op) (k : Key)
    (admitted : (Op.register k, Answer.refused (.registryFull settings.maxKeys)) ∉
      ops.zip (run ops (.new settings)).1) :
    let own := run (ops.filter (Op.concerns k)) (.new settings)
    let all := run ops (.new settings)
    own.1 = ((ops.zip all.1).filter (·.1.concerns k)).map (·.2) ∧
      own.2.stats? k = all.2.stats? k := by
  intro own all
  obtain ⟨answers, alike⟩ := (alikeTo_new settings k).run admitted
  refine ⟨answers, ?_⟩
  rw [stats?, stats?, Registry.stats?, Registry.stats?, alike.find]

/-- A namespace and a port of the same number, which share the places of a registry and a slot for
one signal. -/
def crowded : List Op :=
  [.register (.netns 80), .register (.port 80), .register (.port 81), .store ⟨2, 10, 1⟩,
    .transition 0 (.netns 80) .closed, .observe 0 (.tracepoint 80 7), .tryRecv,
    .unregister (.netns 80), .clearGate (.port 80), .evaluate 0 (.port 80) ⟨2, 10, 2⟩ 11]

/-- The signal of the port is dropped only because of the namespace, and this does not show. -/
theorem run_filter_concerns_crowded :
    let own := run (crowded.filter (Op.concerns (.port 80))) (.new ⟨.latched, 2, 1, 1⟩)
    let all := run crowded (.new ⟨.latched, 2, 1, 1⟩)
    (Op.register (.port 80), Answer.refused (.registryFull 2)) ∉ crowded.zip all.1 ∧
      (own.1 = ((crowded.zip all.1).filter (·.1.concerns (.port 80))).map (·.2) ∧
        own.2.stats? (.port 80) = all.2.stats? (.port 80)) ∧
      own.1 = [.flag true, .thresholds (.ofBounds ⟨2, 10, 1⟩), .signal (some .scaleDown),
        .flag true, .signal none] ∧
      all.2.stats? (.port 80) = some (.port 80, ⟨0, 1, false⟩) := by
  intro own all
  have admitted : (Op.register (.port 80), Answer.refused (.registryFull 2)) ∉
      crowded.zip all.1 := by
    decide +kernel
  exact ⟨admitted, run_filter_concerns ⟨.latched, 2, 1, 1⟩ crowded (.port 80) admitted,
    by decide +kernel, by decide +kernel⟩

end ScaleWatch.Monitor
