import ScaleWatch.Proofs.Session.TurnTaking

/-!
# Chronicles

A chronicle of a list of steps is all that happened while they were made: for each step a path on
which exactly what the step asks for was asked for, and after which no work is ready.  Where in a
step the session does its own work is left open.  Every run has a chronicle (`chronicle_of_runs`),
so what holds of all chronicles holds of `Session.run`, and of every other order of the work.

Whether given deeds are a chronicle of given steps can be computed (`Plan.isPossible`).
-/

namespace ScaleWatch.Session

/-- What a step asks for. -/
def Step.deeds : Step → List Deed
  | .monitor ops => ops.map .operate
  | .advance milliseconds => [.advance milliseconds]
  | .shutdown => [.stop]
  | .lines input => (Ingest.events input).map fun e => .operate (.observe worker (.event e))
  | .http request => (Http.operations worker request).map .operate

inductive Chronicle : Session → List Step → List Moment → Session → Prop where
  | done (s : Session) : Chronicle s [] [] s
  | step {s s' s'' : Session} {st : Step} {steps : List Step} {h h' : List Moment}
      (path : Path s h s') (asked : given h = st.deeds) (settled : s'.Settled)
      (rest : Chronicle s' steps h' s'') : Chronicle s (st :: steps) (h ++ h') s''

theorem path_act (st : Step) (s : Session) :
    ∃ h, Path s h (s.act st).2.2 ∧ given h = st.deeds ∧ printed h = (s.act st).2.1 := by
  cases st with
  | monitor ops => exact path_operateAll ops s
  | advance milliseconds => exact ⟨_, .single (.advance milliseconds), rfl, rfl⟩
  | shutdown => exact ⟨_, .single .stop, rfl, rfl⟩
  | lines input =>
    obtain ⟨h, path, told, same⟩ := path_ingest (Ingest.readable (Ingest.lines input)) s
    refine ⟨h, path, told.trans ?_, same⟩
    rw [reports, List.map_map]
    rfl
  | http request =>
    obtain ⟨h, path, asked, silent⟩ := path_run (Http.direct_operations worker request) s
    refine ⟨h, ?_, asked, silent⟩
    rw [← Http.snd_handle] at path
    exact path

theorem chronicle_of_runs {s s' : Session} {steps : List Step} (runs : Runs s steps s') :
    ∃ h, Chronicle s steps h s' := by
  induction runs with
  | done s => exact ⟨[], .done s⟩
  | @step s s' s'' st steps settles _ ih =>
    obtain ⟨h, path, asked, -⟩ := path_act st s
    obtain ⟨own, work, idle, -⟩ := path_of_work settles.1
    obtain ⟨h', rest⟩ := ih
    refine ⟨_, .step (path.append work) ?_ settles.2 rest⟩
    rw [given_append, idle, asked, List.append_nil]

theorem Chronicle.path {s s' : Session} {steps : List Step} {h : List Moment}
    (c : Chronicle s steps h s') : Path s h s' := by
  induction c with
  | done s => exact .done s
  | step path _ _ _ ih => exact path.append ih

theorem Chronicle.append {s s' s'' : Session} {steps later : List Step} {h h' : List Moment}
    (c : Chronicle s steps h s') (c' : Chronicle s' later h' s'') :
    Chronicle s (steps ++ later) (h ++ h') s'' := by
  induction c with
  | done s => exact c'
  | step path asked settled _ ih =>
    rw [List.append_assoc]
    exact .step path asked settled (ih c')

/-! ### Where no work is ready -/

section Settled

variable {s : Session}

theorem not_ready_of_pending {c c' : Channel} {signal : Signal} (empty : c.pending = 0) :
    c.poll ≠ (.ready signal, c') := by
  intro ready
  have none_left := c.pending_eq_zero_iff.1 empty
  rw [Channel.tryRecv_of_poll ready] at none_left
  cases none_left

theorem settled_of_pending (empty : s.monitor.channel.pending = 0)
    (ahead : ∀ t ∈ s.timers, s.now < t.due) : s.Settled := by
  intro s' work
  cases work with
  | take running ready => exact not_ready_of_pending empty ready
  | fire waiting due => exact Nat.not_le.2 (ahead _ waiting) due

theorem settled_new (settings : Monitor.Settings) (consumed : Bool) (delay : Option Nat) :
    (Session.new (.new settings) consumed delay).Settled := by
  have empty : (Monitor.new settings).channel.pending = 0 := by
    simp [Monitor.new, Channel.new, Channel.pending]
  exact settled_of_pending empty (by simp [Session.new])

end Settled

/-! ### Deeds in a given order -/

/-- The session after a deed, if it can be done. -/
def perform (deed : Deed) (s : Session) : Session :=
  match deed with
  | .operate op => (s.operate op).2
  | .take signal =>
    { s with monitor := { s.monitor with channel := s.monitor.channel.poll.2 } }.schedule signal.key
  | .fire t => fire t { s with timers := s.timers.erase t }
  | .advance milliseconds => { s with now := s.now + milliseconds }
  | .stop => s.stop

def canPerform (deed : Deed) (s : Session) : Bool :=
  match deed with
  | .take signal => s.isConsuming && decide (s.monitor.channel.poll.1 = .ready signal)
  | .fire t => decide (t ∈ s.timers) && decide (t.due ≤ s.now)
  | .operate _ | .advance _ | .stop => true

theorem does_perform {deed : Deed} {s : Session} (h : s.canPerform deed = true) :
    Does s deed (s.perform deed) := by
  cases deed with
  | operate op => exact .operate op
  | take signal =>
    simp only [canPerform, Bool.and_eq_true, decide_eq_true_eq] at h
    exact .take h.1 (Prod.ext h.2 rfl)
  | fire t =>
    simp only [canPerform, Bool.and_eq_true, decide_eq_true_eq] at h
    exact .fire h.1 h.2
  | advance milliseconds => exact .advance milliseconds
  | stop => exact .stop

theorem Does.eq_perform {deed : Deed} {s s' : Session} (does : Does s deed s') :
    s' = s.perform deed := by
  cases does with
  | take running ready => simp only [perform, ready]
  | _ => rfl

/-- The moments of deeds that are done in order. -/
def moments : List Deed → Session → List Moment
  | [], _ => []
  | deed :: deeds, s => ⟨s, deed⟩ :: moments deeds (s.perform deed)

def canPerformAll : List Deed → Session → Bool
  | [], _ => true
  | deed :: deeds, s => s.canPerform deed && canPerformAll deeds (s.perform deed)

def performAll (deeds : List Deed) (s : Session) : Session :=
  deeds.foldl (fun s deed => s.perform deed) s

theorem path_moments {deeds : List Deed} {s : Session} (h : s.canPerformAll deeds = true) :
    Path s (s.moments deeds) (s.performAll deeds) := by
  induction deeds generalizing s with
  | nil => exact .done s
  | cons deed deeds ih =>
    simp only [canPerformAll, Bool.and_eq_true] at h
    exact .next (does_perform h.1) (ih h.2)

theorem map_deed_moments (deeds : List Deed) (s : Session) :
    (s.moments deeds).map (·.deed) = deeds := by
  induction deeds generalizing s with
  | nil => rfl
  | cons deed deeds ih => rw [moments, List.map_cons, ih]

/-- Steps, and for each the deeds that are done in it, in order. -/
abbrev Plan := List (Step × List Deed)

namespace Plan

def moments : Plan → Session → List Moment
  | [], _ => []
  | (_, deeds) :: plan, s => s.moments deeds ++ moments plan (s.performAll deeds)

def last (plan : Plan) (s : Session) : Session :=
  plan.foldl (fun s part => s.performAll part.2) s

/-- All deeds can be done, each step is given what it asks for, and after it no work is ready. -/
def isPossible : Plan → Session → Bool
  | [], _ => true
  | (st, deeds) :: plan, s =>
    s.canPerformAll deeds && decide (deeds.filter (!·.isWork) = st.deeds) &&
      (s.performAll deeds).monitor.channel.pending == 0 &&
      (s.performAll deeds).timers.all ((s.performAll deeds).now < ·.due) &&
      isPossible plan (s.performAll deeds)

theorem chronicle {plan : Plan} {s : Session} (h : plan.isPossible s = true) :
    Chronicle s (plan.map (·.1)) (plan.moments s) (plan.last s) := by
  induction plan generalizing s with
  | nil => exact .done s
  | cons part plan ih =>
    obtain ⟨st, deeds⟩ := part
    simp only [isPossible, Bool.and_eq_true, decide_eq_true_eq, beq_iff_eq, List.all_eq_true] at h
    obtain ⟨⟨⟨⟨possible, asked⟩, empty⟩, ahead⟩, rest⟩ := h
    refine .step (path_moments possible) ?_ (settled_of_pending empty ahead) (ih rest)
    rw [given, map_deed_moments, asked]

end Plan

end ScaleWatch.Session
