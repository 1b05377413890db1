import ScaleWatch.Proofs.Pressure.SignalLaw

/-!
# What judging leaves of a run

A judgement that no gate suppresses leaves a run that is shorter than its bounds ask for, and it
takes the gate only when it ends the run.  `WithinBounds` is what this comes to over a history: what
every evaluation, transition and clear keeps of a key, whatever bounds judge it.
-/

namespace ScaleWatch.Pressure

/-- What holds of the pressure on a key whose events have been judged by bounds of which `judged` is
true, and by no others. -/
structure WithinBounds (policy : GatePolicy) (judged : Bounds → Prop) (p : Pressure) : Prop where
  at_rest : p.gated = true → p.run = 0
  free : policy = .ungated → p.gated = false
  below : p.run = 0 ∨ ∃ b, judged b ∧ p.run < b.bufferLength

section WithinBounds

variable {policy : GatePolicy} {judged judged' : Bounds → Prop} {p : Pressure}

/-- A judgement that no gate suppresses leaves no run, or one that its bounds do not end. -/
theorem run_evaluate (free : p.gated = false) (policy : GatePolicy) (b : Bounds) (count : UInt32) :
    (p.evaluate policy b count).2.run = 0 ∨ (p.evaluate policy b count).2.run < b.bufferLength := by
  by_cases outside : b.outOfBand count = true
  · by_cases full : b.bufferLength ≤ successor p.run
    · rw [evaluate_of_full free outside full]
      exact .inl rfl
    · rw [evaluate_of_short free outside full]
      obtain ⟨grown, below⟩ := toNat_run_add_one full
      exact .inr (UInt32.lt_iff_toNat_lt.2 (grown ▸ below))
  · rw [evaluate_of_inBand free (by simpa using outside)]
    exact .inl rfl

/-- A judgement that no gate suppresses takes the gate only when it ends the run. -/
theorem latched_of_gated_evaluate (free : p.gated = false) {b : Bounds} {count : UInt32}
    (held : (p.evaluate policy b count).2.gated = true) :
    policy = .latched ∧ (p.evaluate policy b count).2.run = 0 := by
  unfold evaluate at held ⊢
  rw [if_neg (by simp [free])] at held ⊢
  split_ifs at held ⊢ with outside full
  · exact ⟨of_decide_eq_true held, rfl⟩
  · simp [free] at held
  · simp [free] at held

theorem withinBounds_zero (policy : GatePolicy) (judged : Bounds → Prop) :
    WithinBounds policy judged zero :=
  ⟨fun _ => rfl, fun _ => rfl, .inl rfl⟩

theorem WithinBounds.mono (h : p.WithinBounds policy judged) (more : ∀ b, judged b → judged' b) :
    p.WithinBounds policy judged' :=
  ⟨h.at_rest, h.free, h.below.imp_right fun ⟨b, inside, less⟩ => ⟨b, more b inside, less⟩⟩

theorem WithinBounds.apply (h : p.WithinBounds policy judged) (t : Transition) :
    (p.apply t).WithinBounds policy judged := by
  cases t <;> exact ⟨h.at_rest, h.free, h.below⟩

theorem WithinBounds.clearGate (h : p.WithinBounds policy judged) :
    p.clearGate.2.WithinBounds policy judged :=
  ⟨nofun, fun _ => rfl, h.below⟩

theorem WithinBounds.evaluate (h : p.WithinBounds policy judged) {b : Bounds}
    (noted : p.gated = false → judged b) (count : UInt32) :
    (p.evaluate policy b count).2.WithinBounds policy judged := by
  by_cases held : p.gated = true
  · rw [evaluate_of_gated held]
    exact h
  have free : p.gated = false := by simpa using held
  refine ⟨fun gated => (latched_of_gated_evaluate free gated).2, fun ungated => ?_, ?_⟩
  · by_contra gated
    obtain ⟨latched, -⟩ := latched_of_gated_evaluate free (by simpa using gated)
    rw [latched] at ungated
    cases ungated
  · exact (run_evaluate free policy b count).imp_right fun less => ⟨b, noted free, less⟩

/-- The next event out of band can be counted. -/
theorem WithinBounds.room (h : p.WithinBounds policy judged) : p.run.toNat + 1 < UInt32.size := by
  rcases h.below with none_yet | ⟨b, -, less⟩
  · rw [none_yet]
    decide
  · have := b.bufferLength.toNat_lt
    have := UInt32.lt_iff_toNat_lt.1 less
    simp only [UInt32.size]
    omega

end WithinBounds

end ScaleWatch.Pressure
