import ScaleWatch.Proofs.Registry.BoundedMap

/-!
# Handles that outlive a registration

A handle is taken on the registration of a key that is current at the time, and may be used long
after it: when the key has been unregistered, registered again, or both many times over.
`acts_within_registration` says that it never reaches further than its own registration.  As long
as that is current, acting through the handle is acting through the registry; from then on the
handle has a pressure of its own, which nothing else sees or changes, and through which it changes
nothing else.

What carries the proof is the number of registrations of a key that have ended.  It tells the
handles on them from the handles on the current one, and only unregistering raises it
(`Handle.Current.after`, `Handle.Past.after`).
-/

namespace ScaleWatch.Tenancy

/-- The operations end a registration of the key. -/
def Ends (k : Key) (ops : List Op) (t : Tenancy) : Prop :=
  (Op.unregister k, Answer.flag true) ∈ ops.zip (run ops t).1

/-- Clearing gates acts on the pressures of the registered keys alone. -/
def ClearsRegistered (t : Tenancy) : Prop :=
  ∀ k, (t.step (.clearGate k)).2.past = t.past ∧
    ∀ k', (t.step (.clearGate k)).2.registry.find? k' =
      if k' = k then (t.registry.find? k').map (·.clearGate.2) else t.registry.find? k'

namespace Handle

/-- The registration is current: to act through the handle is to act through the registry, and
when the key is unregistered the handle keeps what it sees. -/
structure ActsOnRegistry (h : Handle) (t : Tenancy) : Prop where
  held : (t.step (.hold h.key)).1 = .held h
  seen : t.seenThrough h = t.registry.find? h.key
  step : ∀ s, t.step (.stepThrough h s) = t.step (.step h.key s)
  clearGate : ∀ k, (t.step (.clearGate k)).2.seenThrough h =
    if h.key = k then (t.seenThrough h).map (·.clearGate.2) else t.seenThrough h
  unregister : (t.step (.unregister h.key)).2.seenThrough h = t.seenThrough h

/-- The registration has ended: the handle is no longer given out, what it sees is its own, and it
acts on nothing else. -/
structure ActsOnItsOwn (h : Handle) (t : Tenancy) (p : Pressure) : Prop where
  held : ∀ k, (t.step (.hold k)).1 ≠ .held h
  seen : t.seenThrough h = some p
  answer : ∀ s, (t.step (.stepThrough h s)).1 =
    .stepped (Pressure.step s p).1 (some (Pressure.step s p).2)
  own : ∀ s, (t.step (.stepThrough h s)).2.seenThrough h = some (Pressure.step s p).2
  registry : ∀ s, (t.step (.stepThrough h s)).2.registry = t.registry
  others : ∀ s h', h' ≠ h → (t.step (.stepThrough h s)).2.seenThrough h' = t.seenThrough h'
  kept : ∀ op, (∀ s, op ≠ .stepThrough h s) → (t.step op).2.seenThrough h = some p

/-- As many registrations of the key have ended as when the handle was taken. -/
structure Current (h : Handle) (t : Tenancy) : Prop where
  watched : t.registry.contains h.key = true
  term : h.term = (t.past h.key).length

/-- More registrations of the key have ended than when the handle was taken. -/
def Past (h : Handle) (t : Tenancy) : Prop :=
  h.term < (t.past h.key).length

end Handle

/-! ### How registrations end -/

theorem snd_step_hold (k : Key) (t : Tenancy) : (t.step (.hold k)).2 = t := by
  rw [step]
  cases t.hold k <;> rfl

theorem hold_eq_some_iff {k : Key} {h : Handle} {t : Tenancy} :
    t.hold k = some h ↔ k = h.key ∧ h.Current t := by
  unfold hold
  split
  · next watched =>
    constructor
    · intro same
      cases same
      exact ⟨rfl, watched, rfl⟩
    · rintro ⟨rfl, -, term⟩
      rw [← term]
  · next absent =>
    constructor
    · intro same
      cases same
    · rintro ⟨rfl, watched, -⟩
      exact absurd watched absent

theorem answer_hold_iff {k : Key} {h : Handle} {t : Tenancy} :
    (t.step (.hold k)).1 = .held h ↔ k = h.key ∧ h.Current t := by
  rw [← hold_eq_some_iff, step]
  cases t.hold k <;> simp

section Past

variable (t : Tenancy)

theorem past_unregister (k k' : Key) :
    (t.step (.unregister k)).2.past k' =
      t.past k' ++ if k' = k then (t.registry.find? k).toList else [] := by
  show (if k' = k then _ else _) = _
  split
  · next same => rw [same]
  · rw [List.append_nil]

/-- Apart from unregistering, only acting through a handle touches what ended registrations left
behind, and takes nothing of it away. -/
theorem past_step {op : Op} (h : ∀ k, op ≠ .unregister k) :
    (t.step op).2.past = t.past ∨
      ∃ g s p, op = .stepThrough g s ∧ (t.past g.key)[g.term]? = some p ∧
        (t.step op).2.registry = t.registry ∧
        (t.step op).2.past = fun k =>
          if k = g.key then (t.past k).set g.term (Pressure.step s p).2 else t.past k := by
  cases op with
  | register k =>
    rw [step]
    rcases t.registry.register k with fault | ⟨isNew, r⟩ <;> exact .inl rfl
  | unregister k => exact absurd rfl (h k)
  | clearGate k =>
    rw [step]
    rcases t.registry.clearGate k with fault | ⟨isNew, r⟩ <;> exact .inl rfl
  | step k s =>
    rw [step]
    rcases t.registry.update k (Pressure.step s) with _ | ⟨a, r⟩ <;> exact .inl rfl
  | hold k => exact .inl (by rw [snd_step_hold])
  | stepThrough g s =>
    rw [step, updateThrough]
    rcases there : (t.past g.key)[g.term]? with _ | p
    · rcases t.registry.update g.key (Pressure.step s) with _ | ⟨a, r⟩ <;> exact .inl rfl
    · exact .inr ⟨g, s, p, rfl, there, rfl, rfl⟩

theorem length_past_step {op : Op} (h : ∀ k, op ≠ .unregister k) (k : Key) :
    ((t.step op).2.past k).length = (t.past k).length := by
  rcases past_step t h with same | ⟨g, s, p, -, -, -, same⟩
  · rw [same]
  · rw [same, apply_ite List.length, List.length_set, ite_self]

end Past

/-! ### The life of a handle -/

section Life

variable {h : Handle} {t : Tenancy}

theorem contains_step {k : Key} {op : Op} (watched : t.registry.contains k = true)
    (kept : op ≠ .unregister k) : (t.step op).2.registry.contains k = true := by
  obtain ⟨p, found⟩ := Registry.contains_iff.1 watched
  by_cases lifecycle : op.isLifecycle = true
  · cases op with
    | register k' =>
      rw [step]
      rcases registered : t.registry.register k' with fault | ⟨isNew, r⟩
      · exact watched
      · refine Registry.contains_iff.2 ?_
        rw [Registry.find?_of_register registered]
        split
        · exact ⟨.zero, rfl⟩
        · exact ⟨p, found⟩
    | unregister k' =>
      have other : k ≠ k' := fun same => kept (same ▸ rfl)
      refine Registry.contains_iff.2 ⟨p, ?_⟩
      exact (Registry.find?_unregister k' k t.registry).trans ((if_neg other).trans found)
    | _ => cases lifecycle
  · have keys := (keys_of_not_isLifecycle (by simpa using lifecycle) t).1
    rw [← Registry.mem_keys_iff, keys, Registry.mem_keys_iff]
    exact watched

/-- A registration that is current stays so until its key is unregistered. -/
theorem Handle.Current.after (current : h.Current t) (op : Op) :
    op = .unregister h.key ∧ (t.step op).1 = .flag true ∧ h.Past (t.step op).2 ∨
      op ≠ .unregister h.key ∧ h.Current (t.step op).2 := by
  obtain ⟨watched, term⟩ := current
  by_cases ends : op = .unregister h.key
  · subst ends
    obtain ⟨p, found⟩ := Registry.contains_iff.1 watched
    refine .inl ⟨rfl, congrArg Answer.flag ((t.registry.fst_unregister _).trans watched), ?_⟩
    rw [Past, past_unregister, if_pos rfl, found, term]
    simp
  · refine .inr ⟨ends, contains_step watched ends, ?_⟩
    by_cases other : ∃ k, op = .unregister k
    · obtain ⟨k, rfl⟩ := other
      have apart : h.key ≠ k := fun same => ends (same ▸ rfl)
      rw [past_unregister, if_neg apart, List.append_nil, term]
    · rw [length_past_step t (not_exists.1 other), term]

/-- A registration that has ended never comes back. -/
theorem Handle.Past.after (ended : h.Past t) (op : Op) : h.Past (t.step op).2 := by
  rw [Past] at *
  by_cases other : ∃ k, op = .unregister k
  · obtain ⟨k, rfl⟩ := other
    rw [past_unregister, List.length_append]
    omega
  · rw [length_past_step t (not_exists.1 other)]
    exact ended

theorem Handle.Past.run (ended : h.Past t) (ops : List Op) : h.Past (run ops t).2 := by
  induction ops generalizing t with
  | nil => exact ended
  | cons op ops ih => exact ih (ended.after op)

theorem ends_cons {k : Key} {op : Op} {ops : List Op} :
    Ends k (op :: ops) t ↔
      op = .unregister k ∧ (t.step op).1 = .flag true ∨ Ends k ops (t.step op).2 := by
  rw [Ends, Tenancy.run, List.zip_cons_cons, List.mem_cons, Prod.mk.injEq, Ends, eq_comm,
    eq_comm (a := Answer.flag true)]

/-- Whether a registration is still current shows in the operations and their answers. -/
theorem Handle.Current.run (current : h.Current t) (ops : List Op) :
    (¬Ends h.key ops t ∧ h.Current (run ops t).2) ∨ (Ends h.key ops t ∧ h.Past (run ops t).2) := by
  induction ops generalizing t with
  | nil => exact .inl ⟨List.not_mem_nil, current⟩
  | cons op ops ih =>
    simp only [ends_cons]
    rcases current.after op with ⟨same, answer, ended⟩ | ⟨other, current⟩
    · exact .inr ⟨.inl ⟨same, answer⟩, ended.run ops⟩
    · rcases ih current with ⟨goesOn, current⟩ | ⟨ends, ended⟩
      · exact .inl ⟨fun ends => ends.elim (fun first => other first.1) goesOn, current⟩
      · exact .inr ⟨.inr ends, ended⟩

end Life

/-! ### Acting through a handle -/

theorem clearsRegistered (t : Tenancy) : ClearsRegistered t := by
  intro k
  have after : (t.step (.clearGate k)).2 =
      { t with registry := (t.registry.update k Pressure.clearGate).elim t.registry (·.2) } := by
    rw [step, Registry.clearGate]
    cases t.registry.update k Pressure.clearGate <;> rfl
  rw [after]
  exact ⟨rfl, fun k' => Registry.find?_elim_update k k' Pressure.clearGate t.registry⟩

section Acting

variable {h : Handle} {t : Tenancy}

theorem seenThrough_of_length {t : Tenancy} (none : h.term = (t.past h.key).length) :
    t.seenThrough h = t.registry.find? h.key := by
  rw [seenThrough, List.getElem?_eq_none (Nat.le_of_eq none.symm)]

theorem seenThrough_of_past {t : Tenancy} {p : Pressure}
    (left : (t.past h.key)[h.term]? = some p) : t.seenThrough h = some p := by
  rw [seenThrough, left]

theorem Handle.Current.actsOnRegistry (current : h.Current t) : h.ActsOnRegistry t where
  held := answer_hold_iff.2 ⟨rfl, current⟩
  seen := seenThrough_of_length current.term
  step s := by
    rw [Tenancy.step, Tenancy.step, updateThrough,
      List.getElem?_eq_none (Nat.le_of_eq current.term.symm)]
    rcases t.registry.update h.key (Pressure.step s) with _ | ⟨a, r⟩
    · rfl
    · exact congrArg (fun seen => (Answer.stepped a seen, _))
        (seenThrough_of_length current.term)
  clearGate k := by
    obtain ⟨past, cleared⟩ := clearsRegistered t k
    rw [seenThrough_of_length (past ▸ current.term), cleared,
      seenThrough_of_length current.term]
  unregister := by
    obtain ⟨p, found⟩ := Registry.contains_iff.1 current.watched
    rw [seenThrough_of_length current.term, found]
    refine seenThrough_of_past ?_
    rw [past_unregister, if_pos rfl, found, current.term]
    simp

theorem Handle.Past.actsOnItsOwn (ended : h.Past t) : ∃ p, h.ActsOnItsOwn t p := by
  -- what the registration left behind is all that the handle reads and writes
  obtain ⟨p, left⟩ : ∃ p, (t.past h.key)[h.term]? = some p := ⟨_, List.getElem?_eq_getElem ended⟩
  have stored : ∀ s, ((fun k => if k = h.key then (t.past k).set h.term (Pressure.step s p).2
      else t.past k) h.key)[h.term]? = some (Pressure.step s p).2 := by
    intro s
    simp only [if_true, List.getElem?_set_self ended]
  have acts : ∀ s, t.step (.stepThrough h s) =
      (.stepped (Pressure.step s p).1 (some (Pressure.step s p).2), { t with
        past := fun k =>
          if k = h.key then (t.past k).set h.term (Pressure.step s p).2 else t.past k }) := by
    intro s
    rw [step, updateThrough, left]
    exact congrArg (fun seen => (Answer.stepped _ seen, _)) (seenThrough_of_past (stored s))
  refine ⟨p, ⟨fun k held => ?_, seenThrough_of_past left, fun s => by rw [acts], fun s => ?_,
    fun s => by rw [acts], fun s h' other => ?_, fun op apart => ?_⟩⟩
  · have term := (answer_hold_iff.1 held).2.term
    rw [Past, term] at ended
    exact Nat.lt_irrefl _ ended
  · rw [acts]
    exact seenThrough_of_past (stored s)
  · rw [acts]
    unfold seenThrough
    by_cases same : h'.key = h.key
    · have term : h.term ≠ h'.term := fun equal => other (by cases h; cases h'; simp_all)
      simp only [same, if_true, List.getElem?_set_ne term]
    · simp only [same, if_false]
  · refine seenThrough_of_past ?_
    by_cases ends : ∃ k, op = .unregister k
    · obtain ⟨k, rfl⟩ := ends
      rw [past_unregister, List.getElem?_append_left ended, left]
    · rcases past_step t (not_exists.1 ends) with same | ⟨g, s, q, rfl, -, -, same⟩
      · rw [same, left]
      · rw [same]
        by_cases key : h.key = g.key
        · have term : g.term ≠ h.term := fun equal =>
            apart s (by cases g; cases h; simp_all)
          simp only [key, if_true, List.getElem?_set_ne term]
          rw [← key, left]
        · simp only [key, if_false, left]

end Acting

/-- Wherever a handle is taken, and whatever happens afterwards: until its registration is ended it
acts as the registry does, and afterwards on a pressure of its own, so that nothing that belongs to
another registration changes. Clearing gates never acts on what ended registrations left behind. -/
theorem acts_within_registration (capacity : Nat) (before later : List Op) {k : Key} {h : Handle}
    {t : Tenancy} (taken : (run before (.empty capacity)).2.step (.hold k) = (.held h, t)) :
    h.key = k ∧ (¬Ends k later t → h.ActsOnRegistry (run later t).2) ∧
      (Ends k later t → ∃ p, h.ActsOnItsOwn (run later t).2 p) ∧
      ClearsRegistered (run later t).2 := by
  obtain ⟨rfl, current⟩ := answer_hold_iff.1 (congrArg Prod.fst taken)
  obtain rfl : _ = t := (snd_step_hold _ _).symm.trans (congrArg Prod.snd taken)
  refine ⟨rfl, ?_, ?_, clearsRegistered _⟩ <;>
    rcases current.run later with ⟨goesOn, current⟩ | ⟨ends, ended⟩
  · exact fun _ => current.actsOnRegistry
  · exact fun notEnded => absurd ends notEnded
  · exact fun ends => absurd ends goesOn
  · exact fun _ => ended.actsOnItsOwn

/-- The only place is taken by a key with one connection. -/
def occupied : Tenancy :=
  (run [.register (.port 1), .step (.port 1) (.apply .established)] (.empty 1)).2

/-- The key is registered again, and connections are opened through either registration. -/
def reoccupied : List Op :=
  [.unregister (.port 1), .register (.port 1), .stepThrough ⟨.port 1, 0⟩ (.apply .established),
    .step (.port 1) (.evaluate .latched ⟨2, 10, 1⟩ 11),
    .stepThrough ⟨.port 1, 0⟩ (.apply .established)]

/-- The handle counts three connections, where the registry has a fired key without any. -/
theorem acts_within_registration_reoccupied :
    occupied.step (.hold (.port 1)) = (.held ⟨.port 1, 0⟩, occupied) ∧
      Ends (.port 1) reoccupied occupied ∧
      (∃ p, Handle.ActsOnItsOwn ⟨.port 1, 0⟩ (run reoccupied occupied).2 p) ∧
      (run reoccupied occupied).2.seenThrough ⟨.port 1, 0⟩ = some ⟨3, 0, false⟩ ∧
      (run reoccupied occupied).2.registry.entries = [(.port 1, ⟨0, 0, true⟩)] := by
  have taken : occupied.step (.hold (.port 1)) = (.held ⟨.port 1, 0⟩, occupied) :=
    Prod.ext (by decide) (snd_step_hold _ _)
  have ends : Ends (.port 1) reoccupied occupied := ends_cons.2 (.inl ⟨rfl, by decide⟩)
  exact ⟨taken, ends, (acts_within_registration 1 _ reoccupied taken).2.2.1 ends,
    by decide +kernel, by decide +kernel⟩

end ScaleWatch.Tenancy
