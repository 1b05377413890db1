import ScaleWatch.Proofs.Pressure.WithinBounds

/-!
# Latching fires no more than no gate does

Two keys are judged by the same bounds on the same counts.  One of them latches, so after a signal
it is silent until its gate is cleared; the other has no gate.  After the first suppressed event
their runs are out of phase and may never meet again, so they cannot be compared run by run.

What can be compared is the `level` of a key: its signals, each taken for as many events as make a
full run, and the events of its run.  An event out of band that is not suppressed takes the level
one up, and an event in band takes it down to the full runs in it.  So the level of the key that
latches never is above the other (`level_latched_le`), and the signals are the full runs in the
level.
-/

namespace ScaleWatch.Pressure

/-! ### What is asked of a key -/

/-- What is asked of a key while its bounds stand. -/
inductive Ask where
  | judge (count : UInt32)
  | clear

def Ask.step (policy : GatePolicy) (b : Bounds) : Ask → Step
  | judge count => .evaluate policy b count
  | clear => .clearGate

def Answer.fired? : Answer → Option Direction
  | .signal fired => fired
  | .count _ | .wasHeld _ => none

/-- What was done to a key that nothing had been asked of before. -/
def record (policy : GatePolicy) (b : Bounds) (asks : List Ask) : List Entry :=
  history (asks.map (·.step policy b)) zero

/-- What is fired at each ask, in order. -/
def verdicts (policy : GatePolicy) (b : Bounds) (asks : List Ask) : List (Option Direction) :=
  (record policy b asks).map (·.answer.fired?)

def outcome (policy : GatePolicy) (b : Bounds) (asks : List Ask) : Pressure :=
  after (asks.map (·.step policy b)) zero

/-- The first signal, with the number of asks before it. -/
def firstSignal? (fired : List (Option Direction)) : Option (Direction × Nat) :=
  fired.zipIdx.findSome? fun x => x.1.map (·, x.2)

/-- Each latched signal is cleared before the next count is judged. -/
def ClearsInTime (b : Bounds) (asks : List Ask) : Prop :=
  ∀ before count rest, asks = before ++ .judge count :: rest →
    ¬Suppressed (record .latched b before)

section Asks

variable (policy : GatePolicy) (b : Bounds) (asks : List Ask)

theorem record_append (later : List Ask) :
    record policy b (asks ++ later) =
      record policy b asks ++ history (later.map (·.step policy b)) (outcome policy b asks) := by
  rw [record, List.map_append, history_append]
  rfl

theorem outcome_concat (a : Ask) :
    outcome policy b (asks ++ [a]) = (step (a.step policy b) (outcome policy b asks)).2 := by
  rw [outcome, after, List.map_append, List.foldl_append]
  rfl

theorem verdicts_concat (a : Ask) :
    verdicts policy b (asks ++ [a]) =
      verdicts policy b asks ++ [(step (a.step policy b) (outcome policy b asks)).1.fired?] := by
  rw [verdicts, record_append, List.map_append]
  rfl

theorem length_verdicts : (verdicts policy b asks).length = asks.length := by
  rw [verdicts, List.length_map, record, length_history, List.length_map]

/-- What is fired does not hang on what is asked later. -/
theorem take_verdicts (n : Nat) :
    (verdicts policy b asks).take n = verdicts policy b (asks.take n) := by
  induction asks using List.reverseRecOn with
  | nil => simp [verdicts, record, history]
  | append_singleton asks a ih =>
    rw [verdicts_concat, List.take_append, List.take_append, length_verdicts, ih]
    rcases Nat.lt_or_ge asks.length n with all | part
    · obtain ⟨more, rest⟩ : ∃ k, n - asks.length = k + 1 := ⟨n - asks.length - 1, by omega⟩
      rw [rest, List.take_succ_cons, List.take_succ_cons, List.take_nil, List.take_nil,
        List.take_of_length_le all.le, verdicts_concat]
    · rw [Nat.sub_eq_zero_of_le part, List.take_zero, List.take_zero, List.append_nil,
        List.append_nil]

theorem gated_outcome_iff :
    (outcome policy b asks).gated = true ↔ Suppressed (record policy b asks) :=
  (reflects_after_zero _).gated

theorem withinBounds_outcome : (outcome policy b asks).WithinBounds policy (· = b) := by
  induction asks using List.reverseRecOn with
  | nil => exact withinBounds_zero _ _
  | append_singleton asks a ih =>
    rw [outcome_concat]
    cases a with
    | judge count => exact ih.evaluate (fun _ => rfl) count
    | clear => exact ih.clearGate

theorem gated_outcome_ungated : (outcome .ungated b asks).gated = false :=
  (withinBounds_outcome .ungated b asks).free rfl

end Asks

/-! ### Levels -/

/-- The number of events that make a full run; bounds that ask for none are met by one. -/
def fullRun (b : Bounds) : Nat :=
  max 1 b.bufferLength.toNat

def signals (policy : GatePolicy) (b : Bounds) (asks : List Ask) : Nat :=
  (verdicts policy b asks).countP Option.isSome

/-- The events in the signals of a key and in its run. -/
def level (policy : GatePolicy) (b : Bounds) (asks : List Ask) : Nat :=
  signals policy b asks * fullRun b + (outcome policy b asks).run.toNat

section Levels

variable {policy : GatePolicy} {b : Bounds} {asks : List Ask}

theorem WithinBounds.run_lt_fullRun {p : Pressure} (h : p.WithinBounds policy (· = b)) :
    p.run.toNat < fullRun b := by
  rcases h.below with none_yet | ⟨_, rfl, less⟩
  · rw [none_yet]
    exact Nat.lt_of_lt_of_le Nat.zero_lt_one (Nat.le_max_left _ _)
  · exact Nat.lt_of_lt_of_le (UInt32.lt_iff_toNat_lt.1 less) (Nat.le_max_right _ _)

/-- Of a run that is not full, a judgement makes one event more, or none at all. -/
theorem level_evaluate {p : Pressure} (free : p.gated = false)
    (short : p.run.toNat < fullRun b) (policy : GatePolicy) (count : UInt32) :
    (p.evaluate policy b count).1.isSome.toNat * fullRun b +
        (p.evaluate policy b count).2.run.toNat =
      if b.outOfBand count then p.run.toNat + 1 else 0 := by
  by_cases outside : b.outOfBand count = true
  · rw [if_pos outside]
    by_cases full : b.bufferLength ≤ successor p.run
    · have reached := toNat_le_of_le_successor full
      rw [evaluate_of_full free outside full]
      show 1 * fullRun b + 0 = _
      rw [fullRun] at short ⊢
      omega
    · rw [evaluate_of_short free outside full]
      show 0 * fullRun b + (p.run + 1).toNat = _
      rw [(toNat_run_add_one full).1, Nat.zero_mul, Nat.zero_add]
  · rw [if_neg outside, evaluate_of_inBand free (by simpa using outside)]
    exact Nat.zero_mul _

theorem signals_concat (policy : GatePolicy) (b : Bounds) (asks : List Ask) (a : Ask) :
    signals policy b (asks ++ [a]) = signals policy b asks +
      (step (a.step policy b) (outcome policy b asks)).1.fired?.isSome.toNat := by
  rw [signals, verdicts_concat, List.countP_append, List.countP_singleton, signals]
  cases (step (a.step policy b) (outcome policy b asks)).1.fired?.isSome <;> rfl

theorem level_clear (policy : GatePolicy) (b : Bounds) (asks : List Ask) :
    level policy b (asks ++ [.clear]) = level policy b asks := by
  rw [level, level, signals_concat, outcome_concat]
  rfl

theorem level_judge_of_gated (held : (outcome policy b asks).gated = true) (count : UInt32) :
    level policy b (asks ++ [.judge count]) = level policy b asks := by
  rw [level, level, signals_concat, outcome_concat]
  simp only [Ask.step, step, evaluate_of_gated held]
  rfl

theorem level_judge (free : (outcome policy b asks).gated = false) (count : UInt32) :
    level policy b (asks ++ [.judge count]) =
      if b.outOfBand count then level policy b asks + 1 else signals policy b asks * fullRun b := by
  have short := (withinBounds_outcome policy b asks).run_lt_fullRun
  have judged := level_evaluate free short policy count
  rw [level, signals_concat, outcome_concat, Nat.add_mul, Nat.add_assoc]
  refine (congrArg (_ + ·) judged).trans ?_
  rw [level]
  split <;> rfl

/-- The signals are the full runs in the level. -/
theorem signals_eq_div (policy : GatePolicy) (b : Bounds) (asks : List Ask) :
    signals policy b asks = level policy b asks / fullRun b := by
  have short := (withinBounds_outcome policy b asks).run_lt_fullRun
  have positive : 0 < fullRun b := Nat.lt_of_le_of_lt (Nat.zero_le _) short
  rw [level, Nat.mul_comm, Nat.mul_add_div positive, Nat.div_eq_of_lt short, Nat.add_zero]

theorem level_latched_le (b : Bounds) (asks : List Ask) :
    level .latched b asks ≤ level .ungated b asks := by
  induction asks using List.reverseRecOn with
  | nil => exact Nat.le_refl _
  | append_singleton asks a ih =>
    have fewer : signals .latched b asks ≤ signals .ungated b asks := by
      rw [signals_eq_div, signals_eq_div]
      exact Nat.div_le_div_right ih
    cases a with
    | clear => rwa [level_clear, level_clear]
    | judge count =>
      rw [level_judge (gated_outcome_ungated b asks)]
      by_cases held : (outcome .latched b asks).gated = true
      · -- A gate is held where a run has ended, so this level is one of full runs.
        have rests := (withinBounds_outcome .latched b asks).at_rest held
        rw [level_judge_of_gated held]
        split
        · exact Nat.le_succ_of_le ih
        · rw [level, rests]
          exact Nat.mul_le_mul_right _ fewer
      · rw [level_judge (by simpa using held)]
        split
        · exact Nat.succ_le_succ ih
        · exact Nat.mul_le_mul_right _ fewer

end Levels

/-! ### Until something is suppressed -/

section Unsuppressed

variable {b : Bounds} {asks : List Ask}

theorem ClearsInTime.of_append {later : List Ask} (h : ClearsInTime b (asks ++ later)) :
    ClearsInTime b asks := by
  rintro before count rest rfl
  exact h before count (rest ++ later) (by simp)

/-- Where no gate is held, the policy makes no difference to what is fired and to the run. -/
theorem evaluate_policy {p q : Pressure} (p_free : p.gated = false) (q_free : q.gated = false)
    (same : p.run = q.run) (policy policy' : GatePolicy) (b : Bounds) (count : UInt32) :
    (p.evaluate policy b count).1 = (q.evaluate policy' b count).1 ∧
      (p.evaluate policy b count).2.run = (q.evaluate policy' b count).2.run := by
  simp only [evaluate, p_free, q_free, same, Bool.false_eq_true, if_false]
  split
  · split <;> simp
  · simp

/-- If each signal is cleared in time, the key that latches does what the other does. -/
theorem ClearsInTime.alike (h : ClearsInTime b asks) :
    verdicts .latched b asks = verdicts .ungated b asks ∧
      (outcome .latched b asks).run = (outcome .ungated b asks).run := by
  induction asks using List.reverseRecOn with
  | nil => exact ⟨rfl, rfl⟩
  | append_singleton asks a ih =>
    obtain ⟨verdicts_eq, run_eq⟩ := ih h.of_append
    rw [verdicts_concat, verdicts_concat, outcome_concat, outcome_concat, verdicts_eq]
    cases a with
    | clear => exact ⟨rfl, run_eq⟩
    | judge count =>
      have free : (outcome .latched b asks).gated = false := by
        simpa using (gated_outcome_iff .latched b asks).not.2 (h asks count [] rfl)
      obtain ⟨fired, run⟩ := evaluate_policy free (gated_outcome_ungated b asks) run_eq .latched
        .ungated b count
      exact ⟨congrArg (verdicts .ungated b asks ++ [·]) fired, run⟩

/-- Nothing is suppressed before something is fired. -/
theorem clearsInTime_of_silent (silent : ∀ fired ∈ verdicts .latched b asks, fired = none)
    (a : Ask) : ClearsInTime b (asks ++ [a]) := by
  rintro before count rest split ⟨earlier, e, since, recorded, latches, -⟩
  have begins : before <+: asks := by
    rcases List.eq_nil_or_concat rest with rfl | ⟨rest, last, rfl⟩
    · exact (List.append_inj' split rfl).1 ▸ List.prefix_rfl
    · rw [List.concat_eq_append, ← List.cons_append, ← List.append_assoc] at split
      exact (List.append_inj' split rfl).1 ▸ List.prefix_append _ _
  obtain ⟨later, rfl⟩ := begins
  have inside : e.answer.fired? ∈ verdicts .latched b (before ++ later) := by
    rw [verdicts, record_append, recorded]
    simp
  have nothing := silent _ inside
  unfold Entry.latches at latches
  split at latches
  · cases nothing
  · cases latches

theorem eq_none_of_firstSignal? {fired : List (Option Direction)} (h : firstSignal? fired = none) :
    ∀ d ∈ fired, d = none := by
  intro d inside
  obtain ⟨i, here⟩ := List.mem_iff_getElem?.1 inside
  have quiet := List.findSome?_eq_none_iff.1 h (d, i) (List.mk_mem_zipIdx_iff_getElem?.2 here)
  exact Option.map_eq_none_iff.1 quiet

theorem firstSignal?_append_of_some {fired : List (Option Direction)} {first : Direction × Nat}
    (h : firstSignal? fired = some first) (later : List (Option Direction)) :
    firstSignal? (fired ++ later) = some first := by
  unfold firstSignal? at h ⊢
  rw [List.zipIdx_append, List.findSome?_append, h]
  rfl

theorem firstSignal?_alike (b : Bounds) (asks : List Ask) :
    firstSignal? (verdicts .latched b asks) = firstSignal? (verdicts .ungated b asks) := by
  induction asks using List.reverseRecOn with
  | nil => rfl
  | append_singleton asks a ih =>
    rcases first : firstSignal? (verdicts .latched b asks) with _ | signal
    · rw [(clearsInTime_of_silent (eq_none_of_firstSignal? first) a).alike.1]
    · rw [verdicts_concat, verdicts_concat, firstSignal?_append_of_some first,
        firstSignal?_append_of_some (ih ▸ first)]

end Unsuppressed

/-- Whatever is asked of two keys under the same bounds, the one that latches has at every moment
fired no more often than the one without a gate; the first signal of both comes at the same ask and
in the same direction; and if each latched signal is cleared before the next count is judged, both
fire the same throughout and have the same run at every moment. -/
theorem latching_fires_no_more (b : Bounds) (asks : List Ask) :
    (∀ n, ((verdicts .latched b asks).take n).countP Option.isSome ≤
      ((verdicts .ungated b asks).take n).countP Option.isSome) ∧
    firstSignal? (verdicts .latched b asks) = firstSignal? (verdicts .ungated b asks) ∧
    (ClearsInTime b asks →
      verdicts .latched b asks = verdicts .ungated b asks ∧
        ∀ earlier, earlier <+: asks →
          (outcome .latched b earlier).run = (outcome .ungated b earlier).run) := by
  refine ⟨fun n => ?_, firstSignal?_alike b asks, fun clears => ⟨clears.alike.1, ?_⟩⟩
  · rw [take_verdicts, take_verdicts]
    show signals .latched b _ ≤ signals .ungated b _
    rw [signals_eq_div, signals_eq_div]
    exact Nat.div_le_div_right (level_latched_le b _)
  · rintro earlier ⟨later, rfl⟩
    exact clears.of_append.alike.2

end ScaleWatch.Pressure
