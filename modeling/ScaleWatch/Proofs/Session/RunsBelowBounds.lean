import ScaleWatch.Proofs.Pressure.WithinBounds
import ScaleWatch.Proofs.Session.Chronicle

/-!
# A run stays below bounds that have judged it

Bounds can be rewritten at any time, so the run of a key may be longer than the bounds in force ask
for.  But it only ever grows under bounds that ask for more than it has become, so it is shorter
than what some bounds asked for that have judged the key since it was registered.  Therefore the
next event can always be counted.  And a gate is held only where there is no run to go on with.

What a deed does to the keys is the `Moment.effect`; `Pressure.WithinBounds` is what every effect
keeps.
-/

namespace ScaleWatch

theorem Pressure.WithinBounds.moved {policy : GatePolicy} {judged : Bounds → Prop} {p : Pressure}
    (h : p.WithinBounds policy judged) (t : Option Transition) :
    (Monitor.moved t p).WithinBounds policy judged := by
  cases t with
  | none => exact h
  | some t => exact h.apply t

namespace Session

/-! ### What a deed does to the keys -/

namespace Moment

def effect (m : Moment) : Monitor.Effect :=
  match m.deed with
  | .operate op => m.session.monitor.effect op
  | .fire t =>
    if (m.session.consumer.bind (·.generations t.key)) = some t.generation then .release t.key
    else .idle
  | .take _ => .take 1
  | .advance _ => .idle
  | .stop => .close

/-- A count of the key is judged by the bounds, and no gate suppresses it. -/
def Judges (k : Key) (b : Bounds) (m : Moment) : Prop :=
  ∃ worker t count p, m.effect = .judge worker k t b count ∧
    m.session.monitor.registry.find? k = some p ∧ p.gated = false

end Moment

/-- The key has been judged by the bounds, and has not been unregistered since. -/
def JudgedSince (k : Key) (h : List Moment) (b : Bounds) : Prop :=
  ∃ before m after, h = before ++ m :: after ∧ m.Judges k b ∧
    ∀ m' ∈ after, m'.deed ≠ .operate (.unregister k)

section Effect

variable {s s' : Session} {k : Key} {h : List Moment} {m : Moment} {b : Bounds}

/-- What is done with the stream leaves the keys as they are. -/
theorem on_of_isOnStream {op : Monitor.Op} (stream : op.isOnStream = true) (m : Monitor)
    (policy : GatePolicy) (k : Key) (p : Option Pressure) : (m.effect op).on policy k p = p := by
  cases op with
  | tryRecv | poll | drain =>
    simp only [Monitor.effect]
    split <;> rfl
  | dropStream => rfl
  | _ => cases stream

theorem find_fire (t : Timer) (s : Session) (k : Key) :
    (fire t s).monitor.registry.find? k =
      (Moment.effect ⟨s, .fire t⟩).on s.monitor.policy k (s.monitor.registry.find? k) := by
  simp only [Moment.effect]
  rcases consumed : s.consumer with _ | c
  · rw [fire, consumed]
    rfl
  by_cases newest : c.generations t.key = some t.generation
  · rw [fire_of_newest consumed newest, if_pos (by exact newest)]
    exact (Monitor.leads_clearGate t.key s.monitor).find k
  · rw [fire_of_stale consumed newest, if_neg (by exact newest)]
    rfl

theorem Does.find {deed : Deed} (does : Does s deed s') (k : Key) :
    s'.monitor.registry.find? k =
      (Moment.effect ⟨s, deed⟩).on s.monitor.policy k (s.monitor.registry.find? k) := by
  cases does with
  | operate op =>
    unfold Session.operate
    split
    · next answer own =>
      obtain ⟨c, -, answered⟩ := Option.bind_eq_some_iff.1 own
      have stream : op.isOnStream = true := by
        rw [← isSome_answerWithoutStream?, answered]
        rfl
      exact (on_of_isOnStream stream _ _ _ _).symm
    · exact (Monitor.leads_step op s.monitor).find k
  | take running ready =>
    rw [monitor_schedule]
    rfl
  | @fire t waiting due =>
    exact find_fire t { s with timers := s.timers.erase t } k
  | advance milliseconds => rfl
  | stop =>
    rw [Session.stop]
    split <;> rfl

end Effect

/-! ### What every deed keeps -/

/-- Every key is within bounds that have judged it. -/
def WithinBounds (h : List Moment) (s : Session) : Prop :=
  ∀ k p, s.monitor.registry.find? k = some p →
    p.WithinBounds s.monitor.policy (JudgedSince k h)

section WithinBounds

variable {s s' : Session} {k : Key} {h : List Moment} {m : Moment} {b : Bounds}

theorem judgedSince_concat (judges : m.Judges k b) : JudgedSince k (h ++ [m]) b :=
  ⟨h, m, [], rfl, judges, by simp⟩

theorem JudgedSince.concat (since : JudgedSince k h b)
    (kept : m.deed ≠ .operate (.unregister k)) : JudgedSince k (h ++ [m]) b := by
  obtain ⟨before, first, after, rfl, judges, registered⟩ := since
  refine ⟨before, first, after ++ [m], by simp, judges, fun m' inside => ?_⟩
  rcases List.mem_append.1 inside with old | new
  · exact registered m' old
  · rw [List.mem_singleton.1 new]
    exact kept

/-- A key that is watched after a deed has not been unregistered by it. -/
theorem Does.not_unregister {deed : Deed} (does : Does s deed s') {p : Pressure}
    (watched : s'.monitor.registry.find? k = some p) : deed ≠ .operate (.unregister k) := by
  rintro rfl
  rw [does.find k] at watched
  simp [Moment.effect, Monitor.effect, Monitor.Effect.on] at watched

/-- The keys after a deed are those before it; what is new of them is that a key may be new, moved,
released or judged. -/
theorem WithinBounds.does (inside : WithinBounds h s) {deed : Deed} (does : Does s deed s') :
    WithinBounds (h ++ [⟨s, deed⟩]) s' := by
  intro k p' watched
  have kept : ∀ b, JudgedSince k h b → JudgedSince k (h ++ [⟨s, deed⟩]) b :=
    fun b since => since.concat (does.not_unregister watched)
  have before : ∀ p, s.monitor.registry.find? k = some p →
      p.WithinBounds s.monitor.policy (JudgedSince k (h ++ [⟨s, deed⟩])) :=
    fun p old => (inside k p old).mono kept
  rw [does.policy]
  rw [does.find k] at watched
  cases effect : Moment.effect ⟨s, deed⟩ with
  | idle | take | close =>
    rw [effect] at watched
    exact before p' watched
  | watch k' =>
    rw [effect, Monitor.Effect.on] at watched
    split at watched
    · cases watched
      exact Pressure.withinBounds_zero _ _
    · exact before p' watched
  | forget k' =>
    rw [effect, Monitor.Effect.on] at watched
    split at watched
    · cases watched
    · exact before p' watched
  | release k' =>
    rw [effect, Monitor.Effect.on] at watched
    split at watched
    · obtain ⟨p, old, rfl⟩ := Option.map_eq_some_iff.1 watched
      exact (before p old).clearGate
    · exact before p' watched
  | move k' t =>
    rw [effect, Monitor.Effect.on] at watched
    split at watched
    · obtain ⟨p, old, rfl⟩ := Option.map_eq_some_iff.1 watched
      exact (before p old).apply t
    · exact before p' watched
  | judge worker k' t b count =>
    rw [effect, Monitor.Effect.on] at watched
    split at watched
    · next same =>
      subst same
      obtain ⟨p, old, rfl⟩ := Option.map_eq_some_iff.1 watched
      have moved := (before p old).moved t
      refine moved.evaluate (fun free => ?_) count
      exact judgedSince_concat ⟨worker, t, count, p, effect, old,
        (Monitor.gated_moved t p).symm.trans free⟩
    · exact before p' watched

theorem withinBounds_new (settings : Monitor.Settings) (consumed : Bool) (delay : Option Nat) :
    WithinBounds [] (.new (.new settings) consumed delay) := by
  intro k p watched
  cases watched

theorem WithinBounds.along (inside : WithinBounds [] s) (path : Path s h s') : WithinBounds h s' :=
  path.invariant (fun _ _ _ _ _ does inside => inside.does does) inside

theorem Path.policy (path : Path s h s') : s'.monitor.policy = s.monitor.policy := by
  induction path with
  | done => rfl
  | next does _ ih => exact ih.trans does.policy

/-- After a judgement that no gate suppresses the run is shorter than the bounds ask for, or zero
where they ask for nothing. -/
theorem Does.run_lt {deed : Deed} (does : Does s deed s')
    (judges : Moment.Judges k b ⟨s, deed⟩) :
    ∃ p, s'.monitor.registry.find? k = some p ∧ p.run.toNat < max 1 b.bufferLength.toNat := by
  obtain ⟨worker, t, count, p, effect, watched, free⟩ := judges
  rw [does.find k, effect, watched]
  refine ⟨_, if_pos rfl, ?_⟩
  rcases Pressure.run_evaluate ((Monitor.gated_moved t p).trans free) s.monitor.policy b count with
    none_left | less
  · rw [none_left]
    exact Nat.lt_of_lt_of_le Nat.zero_lt_one (Nat.le_max_left _ _)
  · exact Nat.lt_of_lt_of_le (UInt32.lt_iff_toNat_lt.1 less) (Nat.le_max_right _ _)

end WithinBounds

/-- At every point of a chronicle, within its steps and between them: a held gate leaves no run, an
ungated monitor holds no gate, and a run is shorter than bounds asked for that have judged the key
since it was registered, so that it can always grow.  After every judgement that no gate suppresses
it is shorter than the bounds of that judgement ask for, or zero. -/
theorem runs_stay_below_bounds (settings : Monitor.Settings) (consumed : Bool)
    (delay : Option Nat) (steps : List Step) (s : Session)
    (runs : Runs (.new (.new settings) consumed delay) steps s) :
    (∃ h, Chronicle (.new (.new settings) consumed delay) steps h s) ∧
      ∀ h, Chronicle (.new (.new settings) consumed delay) steps h s →
        (∀ past rest, h = past ++ rest →
          ∃ now, Path (.new (.new settings) consumed delay) past now ∧ Path now rest s ∧
            ∀ k p, now.monitor.registry.find? k = some p →
              (p.gated = true → p.run = 0) ∧
              (settings.policy = .ungated → p.gated = false) ∧
              (p.run = 0 ∨ ∃ b, JudgedSince k past b ∧ p.run < b.bufferLength) ∧
              p.run.toNat + 1 < UInt32.size) ∧
        ∀ past m rest, h = past ++ m :: rest →
          ∃ after, Does m.session m.deed after ∧ Path after rest s ∧
            ∀ k b, m.Judges k b →
              ∃ p, after.monitor.registry.find? k = some p ∧
                p.run.toNat < max 1 b.bufferLength.toNat := by
  refine ⟨chronicle_of_runs runs, fun h chronicle => ⟨?_, ?_⟩⟩
  · rintro past rest rfl
    obtain ⟨now, before, after⟩ := chronicle.path.split
    refine ⟨now, before, after, fun k p watched => ?_⟩
    have inside := (withinBounds_new settings consumed delay).along before k p watched
    rw [before.policy] at inside
    exact ⟨inside.at_rest, inside.free, inside.below, inside.room⟩
  · rintro past m rest rfl
    obtain ⟨after, -, does, path⟩ := chronicle.path.at
    exact ⟨after, does, path, fun k b judges => does.run_lt judges⟩

/-- The bounds ask for four billion events and then, after two, for one. -/
def boundsShrink : List Step :=
  [.monitor [.store ⟨2, 10, 4294967295⟩, .register (.port 1), .transition 0 (.port 1) .closed,
    .transition 0 (.port 1) .closed, .writeSlot 2 1]]

/-- The run is then longer than the bounds in force ask for. -/
theorem runs_stay_below_bounds_boundsShrink :
    ∃ s h, Runs (.new (.new ⟨.latched, 16, 1, 1⟩) false none) boundsShrink s ∧
      Chronicle (.new (.new ⟨.latched, 16, 1, 1⟩) false none) boundsShrink h s ∧
      s.monitor.thresholds.active? = some ⟨2, 10, 1⟩ ∧
      s.monitor.registry.find? (.port 1) = some ⟨0, 2, false⟩ ∧
      ∃ b, JudgedSince (.port 1) h b ∧ 2 < b.bufferLength := by
  have runs := runs_run boundsShrink (.new (.new ⟨.latched, 16, 1, 1⟩) false none)
  obtain ⟨⟨h, chronicle⟩, stay⟩ := runs_stay_below_bounds _ false none boundsShrink _ runs
  have watched : (run boundsShrink
      (.new (.new ⟨.latched, 16, 1, 1⟩) false none)).monitor.registry.find? (.port 1) =
      some ⟨0, 2, false⟩ := by decide +kernel
  obtain ⟨now, -, last, within⟩ := (stay h chronicle).1 h [] (List.append_nil h).symm
  cases last
  have below := (within (.port 1) _ watched).2.2.1
  exact ⟨_, h, runs, chronicle, by decide +kernel, watched, below.resolve_left (by decide)⟩

end Session

end ScaleWatch
