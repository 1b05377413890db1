import ScaleWatch.Proofs.Channel.Emission
import ScaleWatch.Proofs.Monitor.Journal
import ScaleWatch.Proofs.Monitor.Separation
import ScaleWatch.Proofs.Pressure.SignalLaw

/-!
# Gates and firing

An operation fires a key when an evaluation of the key answers with a signal (`firing?`).  That is
the only way to take a gate and the only way into the channel.  A gate that is held keeps its key
from firing (`not_holds_of_firing`), and it stays held until it is released or its key is
unregistered (`holds_step`).
-/

namespace ScaleWatch.Monitor

/-- The gate of a key is held. -/
def Holds (k : Key) (m : Monitor) : Prop :=
  ∃ p, m.registry.find? k = some p ∧ p.gated = true

/-- The key that an operation fires, if it does, and the direction. -/
def firing? (op : Op) (m : Monitor) : Option (Key × Direction) :=
  op.key?.bind fun k => (m.step op).1.fired?.map (k, ·)

/-- The operation releases the gate of a key, or forgets the key. -/
def Op.frees (k : Key) : Op → Bool
  | unregister k' | clearGate k' => k' = k
  | _ => false

/-- The worker that an operation comes from. -/
def Op.worker : Op → Nat
  | evaluate worker _ _ _ | transition worker _ _ | observe worker _ => worker
  | _ => 0

theorem gated_moved (t : Option Transition) (p : Pressure) : (moved t p).gated = p.gated := by
  rcases t with _ | _ | _ <;> rfl

/-- A gate is held after an evaluation if it was before, or if the evaluation latches it. -/
theorem gated_evaluate (policy : GatePolicy) (b : Bounds) (count : UInt32) (p : Pressure) :
    (p.evaluate policy b count).2.gated = true ↔
      p.gated = true ∨ (p.evaluate policy b count).1.isSome ∧ policy = .latched := by
  by_cases gated : p.gated = true
  · simp [Pressure.evaluate_of_gated gated, gated]
  have free : p.gated = false := by simpa using gated
  by_cases outside : b.outOfBand count = true
  · by_cases full : b.bufferLength ≤ Pressure.successor p.run
    · simp [Pressure.evaluate_of_full free outside full, free]
    · simp [Pressure.evaluate_of_short free outside full, free]
  · have inside : b.outOfBand count = false := by simpa using outside
    simp [Pressure.evaluate_of_inBand free inside, free]

/-! ### Firing is judging -/

section Firing

variable {op : Op} {m : Monitor} {worker : Nat} {k : Key} {t : Option Transition} {b : Bounds}
  {count : UInt32} {d : Direction}

theorem effectOfTransition_cases (worker : Nat) (k : Key) (t : Transition) (m : Monitor) :
    m.effectOfTransition worker k t = .idle ∨
      ∃ b count, m.effectOfTransition worker k t = .judge worker k (some t) b count := by
  unfold effectOfTransition
  split
  · exact .inr ⟨_, _, rfl⟩
  · exact .inl rfl

theorem named_of_judge (h : m.effect op = .judge worker k t b count) :
    op.key? = some k ∧ op.worker = worker := by
  have named : ∀ worker' k' t', m.effectOfTransition worker' k' t' = .judge worker k t b count →
      some k' = some k ∧ worker' = worker := by
    intro worker' k' t' same
    rcases effectOfTransition_cases worker' k' t' m with idle | ⟨b', count', judged⟩
    · rw [idle] at same
      cases same
    · rw [judged] at same
      cases same
      exact ⟨rfl, rfl⟩
  cases op with
  | evaluate worker k b count =>
    cases h
    exact ⟨rfl, rfl⟩
  | transition worker' k' t' => exact named worker' k' t' h
  | observe worker' o =>
    rw [effect, Observation.transition?] at h
    rcases seen : Tcp.classify o.state with _ | t'
    · rw [seen] at h
      cases h
    · rw [seen] at h
      exact named worker' o.key t' h
  | register k => simp only [effect] at h; split at h <;> cases h
  | tryRecv => simp only [effect] at h; split at h <;> cases h
  | poll => simp only [effect] at h; split at h <;> cases h
  | drain => simp only [effect] at h; split at h <;> cases h
  | _ => cases h

theorem firing?_of_judge (h : m.effect op = .judge worker k t b count) :
    m.firing? op = (m.fired k t b count).map (k, ·) := by
  have named := (named_of_judge h).1
  rw [firing?, named, Option.bind_some, answer_of_judge h]
  rfl

theorem judge_of_fired? (h : (m.step op).1.fired? = some d) :
    ∃ worker k t b count, m.effect op = .judge worker k t b count := by
  have transition : ∀ worker k t, (m.transition worker k t).1 = some d →
      ∃ worker' k' t' b count, m.effectOfTransition worker k t = .judge worker' k' t' b count := by
    intro worker k t fired
    rw [fst_transition] at fired
    unfold effectOfTransition
    split
    · exact ⟨_, _, _, _, _, rfl⟩
    · next none_active =>
      split at fired
      · next p b watched active => exact absurd active (none_active p b watched)
      · cases fired
  cases op with
  | evaluate worker k b count => exact ⟨worker, k, none, b, count, rfl⟩
  | transition worker k t => exact transition worker k t h
  | observe worker o =>
    simp only [step, observe] at h
    rw [effect]
    rcases seen : o.transition? with _ | ⟨k, t⟩
    · rw [seen] at h
      cases h
    · rw [seen] at h
      exact transition worker k t h
  | store b => simp only [step, afterWrite] at h; split at h <;> cases h
  | writeSlot index value => simp only [step, afterWrite] at h; split at h <;> cases h
  | register k => simp only [step, flagOrRefusal] at h; split at h <;> cases h
  | clearGate k => simp only [step, flagOrRefusal] at h; split at h <;> cases h
  | tryRecv =>
    simp only [step, receive] at h
    split at h
    · split at h <;> cases h
    · cases h
  | poll => simp only [step, receive] at h; split at h <;> cases h
  | drain => simp only [step, receive] at h; split at h <;> cases h
  | _ => cases h

/-- Only a judgement fires. -/
theorem judge_of_firing? (h : m.firing? op = some (k, d)) :
    ∃ t b count, m.effect op = .judge op.worker k t b count ∧ m.fired k t b count = some d := by
  obtain ⟨k', named, answered⟩ := Option.bind_eq_some_iff.1 h
  obtain ⟨d', answer, same⟩ := Option.map_eq_some_iff.1 answered
  cases same
  obtain ⟨worker, k'', t, b, count, judged⟩ := judge_of_fired? answer
  obtain ⟨here, rfl⟩ := named_of_judge judged
  rw [named] at here
  cases here
  rw [answer_of_judge judged] at answer
  exact ⟨t, b, count, judged, answer⟩

end Firing

/-! ### The channel -/

section Channel

variable {op : Op} {m : Monitor} {k : Key} {d : Direction}

theorem channel_of_firing (h : m.firing? op = some (k, d)) :
    ∃ n, (m.step op).2.channel = (m.channel.emit op.worker ⟨k, d, some n⟩).2 := by
  obtain ⟨t, b, count, judged, fired⟩ := judge_of_firing? h
  refine ⟨b.bufferLength, ?_⟩
  rw [(leads_step op m).channel, judged]
  simp only [Effect.onChannel, fired]

theorem channel_of_not_firing (direct : op.isOnStream = false) (h : m.firing? op = none) :
    (m.step op).2.channel = m.channel := by
  rw [(leads_step op m).channel]
  have quiet : ∀ worker k t b count, m.effect op = .judge worker k t b count →
      (m.effect op).onChannel m = m.channel := by
    intro worker k t b count judged
    rw [firing?_of_judge judged, Option.map_eq_none_iff] at h
    rw [judged]
    simp only [Effect.onChannel, h]
  have transition : ∀ worker k t, m.effect op = m.effectOfTransition worker k t →
      (m.effect op).onChannel m = m.channel := by
    intro worker k t same
    rcases effectOfTransition_cases worker k t m with idle | ⟨b, count, judged⟩
    · rw [same, idle]
      rfl
    · exact quiet _ _ _ _ _ (same.trans judged)
  cases op with
  | evaluate worker k b count => exact quiet _ _ _ _ _ rfl
  | transition worker k t => exact transition worker k t rfl
  | observe worker o =>
    rcases seen : o.transition? with _ | ⟨k, t⟩
    · rw [effect, seen]
      rfl
    · refine transition worker k t ?_
      rw [effect, seen]
  | register k => rw [effect]; split <;> rfl
  | tryRecv => cases direct
  | poll => cases direct
  | drain => cases direct
  | dropStream => cases direct
  | _ => rfl

end Channel

/-! ### Gates -/

section Gates

variable {op : Op} {m : Monitor} {k : Key} {d : Direction}

theorem not_holds_of_firing (h : m.firing? op = some (k, d)) : ¬m.Holds k := by
  rintro ⟨p, watched, gated⟩
  obtain ⟨t, b, count, -, fired⟩ := judge_of_firing? h
  have suppressed : (moved t p).gated = true := (gated_moved t p).trans gated
  rw [Monitor.fired, watched, Option.bind_some, Pressure.evaluate_of_gated suppressed] at fired
  cases fired

/-- Under the latching policy, a key that fires takes its gate. -/
theorem holds_of_firing (latched : m.policy = .latched) (h : m.firing? op = some (k, d)) :
    (m.step op).2.Holds k := by
  obtain ⟨t, b, count, judged, fired⟩ := judge_of_firing? h
  obtain ⟨p, watched, answer⟩ := Option.bind_eq_some_iff.1 fired
  refine ⟨((moved t p).evaluate m.policy b count).2, ?_, ?_⟩
  · rw [(leads_step op m).find, judged, watched]
    simp [Effect.on]
  · rw [gated_evaluate, answer]
    exact .inr ⟨rfl, latched⟩

/-- Unless the key is watched anew, forgotten or released, a gate that is held stays held. -/
theorem Effect.gated_on {e : Effect} {policy : GatePolicy} {p : Pressure} (gated : p.gated = true)
    (watch : e ≠ .watch k) (forget : e ≠ .forget k) (release : e ≠ .release k) :
    ∃ p', e.on policy k (some p) = some p' ∧ p'.gated = true := by
  cases e with
  | watch k' =>
    have ne : ¬k = k' := fun here => watch (here ▸ rfl)
    exact ⟨p, if_neg ne, gated⟩
  | forget k' =>
    have ne : ¬k = k' := fun here => forget (here ▸ rfl)
    exact ⟨p, if_neg ne, gated⟩
  | release k' =>
    have ne : ¬k = k' := fun here => release (here ▸ rfl)
    exact ⟨p, if_neg ne, gated⟩
  | move k' t =>
    by_cases here : k = k'
    · exact ⟨p.apply t, if_pos here, (gated_moved (some t) p).trans gated⟩
    · exact ⟨p, if_neg here, gated⟩
  | judge worker k' t b count =>
    by_cases here : k = k'
    · have moved_gated := (gated_moved t p).trans gated
      exact ⟨_, if_pos here, (gated_evaluate _ _ _ _).2 (.inl moved_gated)⟩
    · exact ⟨p, if_neg here, gated⟩
  | _ => exact ⟨p, rfl, gated⟩

/-- A gate that is held after an effect was held before, or a judgement of its key has fired. -/
theorem Effect.gated_of_on {e : Effect} {policy : GatePolicy} {before : Option Pressure}
    {p' : Pressure} (find : e.on policy k before = some p') (gated : p'.gated = true) :
    (∃ p, before = some p ∧ p.gated = true) ∨
      ∃ worker t b count p, e = .judge worker k t b count ∧ before = some p ∧
        ((moved t p).evaluate policy b count).1.isSome := by
  cases e with
  | watch k' =>
    simp only [Effect.on] at find
    split at find
    · cases find
      cases gated
    · exact .inl ⟨p', find, gated⟩
  | forget k' =>
    simp only [Effect.on] at find
    split at find
    · cases find
    · exact .inl ⟨p', find, gated⟩
  | release k' =>
    simp only [Effect.on] at find
    split at find
    · obtain ⟨p, -, rfl⟩ := Option.map_eq_some_iff.1 find
      cases gated
    · exact .inl ⟨p', find, gated⟩
  | move k' t =>
    simp only [Effect.on] at find
    split at find
    · obtain ⟨p, watched, rfl⟩ := Option.map_eq_some_iff.1 find
      exact .inl ⟨p, watched, (gated_moved (some t) p).symm.trans gated⟩
    · exact .inl ⟨p', find, gated⟩
  | judge worker k' t b count =>
    simp only [Effect.on] at find
    split at find
    · next here =>
      subst here
      obtain ⟨p, watched, rfl⟩ := Option.map_eq_some_iff.1 find
      rcases (gated_evaluate _ _ _ _).1 gated with held | ⟨fires, -⟩
      · exact .inl ⟨p, watched, (gated_moved t p).symm.trans held⟩
      · exact .inr ⟨worker, t, b, count, p, rfl, watched, fires⟩
    · exact .inl ⟨p', find, gated⟩
  | _ => exact .inl ⟨p', find, gated⟩

theorem clearGate_of_release (h : m.effect op = .release k) : op = .clearGate k := by
  have transition : ∀ worker k' t, m.effectOfTransition worker k' t ≠ .release k := by
    intro worker k' t same
    rcases effectOfTransition_cases worker k' t m with idle | ⟨b, count, judged⟩
    · rw [idle] at same
      cases same
    · rw [judged] at same
      cases same
  cases op with
  | clearGate k' =>
    cases h
    rfl
  | transition worker k' t => exact absurd h (transition worker k' t)
  | observe worker o =>
    rw [effect] at h
    split at h
    · exact absurd h (transition _ _ _)
    · cases h
  | register k' => simp only [effect] at h; split at h <;> cases h
  | tryRecv => simp only [effect] at h; split at h <;> cases h
  | poll => simp only [effect] at h; split at h <;> cases h
  | drain => simp only [effect] at h; split at h <;> cases h
  | _ => cases h

theorem effect_of_frees (h : op.frees k = true) :
    m.effect op = .forget k ∨ m.effect op = .release k := by
  cases op with
  | unregister k' =>
    obtain rfl : k' = k := of_decide_eq_true h
    exact .inl rfl
  | clearGate k' =>
    obtain rfl : k' = k := of_decide_eq_true h
    exact .inr rfl
  | _ => cases h

/-- A gate that is held stays held, unless it is released or its key unregistered. -/
theorem holds_step (held : m.Holds k) (kept : op.frees k = false) : (m.step op).2.Holds k := by
  obtain ⟨p, watched, gated⟩ := held
  have find := (leads_step op m).find k
  rw [watched] at find
  have released : m.effect op ≠ .release k := by
    intro same
    rw [clearGate_of_release same] at kept
    simp [Op.frees] at kept
  have others : m.effect op ≠ .watch k ∧ m.effect op ≠ .forget k := by
    rcases effect_cases op m with ⟨k', rfl, e, absent⟩ | ⟨k', rfl, e⟩ | keeps
    · rw [e]
      refine ⟨?_, Effect.noConfusion⟩
      rintro ⟨⟩
      simp [Registry.contains, watched] at absent
    · rw [e]
      refine ⟨Effect.noConfusion, ?_⟩
      rintro ⟨⟩
      simp [Op.frees] at kept
    · exact ⟨fun e => by rw [e] at keeps; exact keeps, fun e => by rw [e] at keeps; exact keeps⟩
  obtain ⟨p', same, gated'⟩ := Effect.gated_on gated others.1 others.2 released
  exact ⟨p', find.trans same, gated'⟩

/-- A gate that is held was held before, or its key has fired. -/
theorem holds_of_step (held : (m.step op).2.Holds k) :
    (∃ d, m.firing? op = some (k, d)) ∨ m.Holds k ∧ op.frees k = false := by
  obtain ⟨p', find, gated⟩ := held
  rw [(leads_step op m).find] at find
  have kept : op.frees k = false := by
    by_contra frees
    rcases effect_of_frees (m := m) (by simpa using frees) with e | e
    · simp [e, Effect.on] at find
    · simp only [e, Effect.on, if_true, Option.map_eq_some_iff] at find
      obtain ⟨p, -, rfl⟩ := find
      cases gated
  rcases Effect.gated_of_on find gated with before | ⟨worker, t, b, count, p, e, watched, fires⟩
  · exact .inr ⟨before, kept⟩
  · obtain ⟨d, fires⟩ := Option.isSome_iff_exists.1 fires
    left
    refine ⟨d, ?_⟩
    rw [firing?_of_judge e, Monitor.fired, watched, Option.bind_some, fires]
    rfl

/-! ### A stream that is closed -/

/-- Nothing enters a channel whose stream is closed. -/
theorem channel_of_closed (direct : op.isOnStream = false) (closed : m.channel.streamOpen = false) :
    (m.step op).2.channel = m.channel := by
  rcases firing : m.firing? op with _ | ⟨k, d⟩
  · exact channel_of_not_firing direct firing
  · obtain ⟨n, sent⟩ := channel_of_firing firing
    have refuses : m.channel.accepts op.worker = false := by simp [Channel.accepts, closed]
    rw [sent, Channel.emit_of_refuses _ _ _ refuses]

end Gates

end ScaleWatch.Monitor
