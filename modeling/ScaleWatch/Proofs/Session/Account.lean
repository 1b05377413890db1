import ScaleWatch.Proofs.Session.Attended

/-!
# Accounts, step by step

An account of a list of steps is a chronicle that is kept step by step.  For each step it has a
`Stage`: what happened in the step, and the session at rest after it.  It is also stricter than a
chronicle.  Only the ingestion of lines takes turns with the session's own work; in every other
step all that is asked for comes first (`Prompt`).  Every run has an account (`account_of_runs`).

Two accounts of the same steps can be read side by side, though the session's own work comes at
other places in them (`Path.lockstep`, `Account.lockstep`).
-/

namespace ScaleWatch.Session

structure Stage where
  moments : List Moment
  /-- The session when the step and all that follows from it is done. -/
  session : Session

/-- What was asked for from outside came before all that the session did by itself. -/
def Prompt (h : List Moment) : Prop :=
  h.Pairwise fun m m' => m.deed.isWork = true → m'.deed.isWork = true

inductive Account : Session → List Step → List Stage → Session → Prop where
  | done (s : Session) : Account s [] [] s
  | step {s s' s'' : Session} {st : Step} {steps : List Step} {h : List Moment}
      {stages : List Stage} (path : Path s h s') (asked : given h = st.deeds)
      (settled : s'.Settled) (prompt : st.Instant → Prompt h) (rest : Account s' steps stages s'') :
      Account s (st :: steps) (⟨h, s'⟩ :: stages) s''

theorem Account.chronicle {s s' : Session} {steps : List Step} {stages : List Stage}
    (account : Account s steps stages s') : Chronicle s steps (stages.flatMap (·.moments)) s' := by
  induction account with
  | done s => exact .done s
  | step path asked settled _ _ ih => exact .step path asked settled ih

theorem Account.single {s s' s'' : Session} {st : Step} {h : List Moment}
    (account : Account s [st] [⟨h, s'⟩] s'') :
    Path s h s' ∧ given h = st.deeds ∧ s'.Settled ∧ (st.Instant → Prompt h) := by
  cases account with
  | step path asked settled prompt _ => exact ⟨path, asked, settled, prompt⟩

theorem Account.given {s s' : Session} {steps : List Step} {stages : List Stage}
    (account : Account s steps stages s') :
    Session.given (stages.flatMap (·.moments)) = steps.flatMap (·.deeds) := by
  induction account with
  | done s => rfl
  | step path asked _ _ _ ih =>
    rw [List.flatMap_cons, List.flatMap_cons, given_append, asked, ih]

/-! ### What was asked for, and what was not -/

/-- The moments of what was asked for from outside. -/
def outside (h : List Moment) : List Moment :=
  h.filter (!·.deed.isWork)

section Outside

variable {h h' : List Moment} {m : Moment}

theorem given_eq_map_outside (h : List Moment) : given h = (outside h).map (·.deed) := by
  rw [given, outside, List.filter_map]
  rfl

theorem outside_append (h h' : List Moment) : outside (h ++ h') = outside h ++ outside h' :=
  List.filter_append ..

theorem outside_cons_of_work (work : m.deed.isWork = true) (h : List Moment) :
    outside (m :: h) = outside h := by
  simp [outside, work]

theorem outside_cons_of_not_work (asked : m.deed.isWork = false) (h : List Moment) :
    outside (m :: h) = m :: outside h := by
  simp [outside, asked]

theorem isWork_of_given (own : given h = []) : ∀ m ∈ h, m.deed.isWork = true := by
  intro m inside
  by_contra asked
  have := mem_given inside (by simpa using asked)
  rw [own] at this
  cases this

theorem outside_of_given (own : given h = []) : outside h = [] := by
  rw [given_eq_map_outside] at own
  exact List.map_eq_nil_iff.1 own

theorem not_work_of_outside (inside : m ∈ outside h) : m.deed.isWork = false := by
  simpa using (List.mem_filter.1 inside).2

theorem outside_outside (h : List Moment) : outside (outside h) = outside h := by
  rw [outside, List.filter_eq_self.2 fun m inside => by simp [not_work_of_outside inside]]

theorem given_outside (h : List Moment) : given (outside h) = given h := by
  rw [given_eq_map_outside, outside_outside, given_eq_map_outside]

/-- A moment of something that was asked for parts what was asked for before it and after it. -/
theorem given_split (h h' : List Moment) (asked : m.deed.isWork = false) :
    given (h ++ m :: h') = given h ++ m.deed :: given h' := by
  rw [given_append, given_cons_of_not_work asked]

theorem exists_of_given_append {deeds deeds' : List Deed}
    (same : given h = deeds ++ deeds') :
    ∃ h₁ h₂, h = h₁ ++ h₂ ∧ given h₁ = deeds ∧ given h₂ = deeds' := by
  obtain ⟨d₁, d₂, split, first, second⟩ := List.filter_eq_append_iff.1 same
  obtain ⟨h₁, h₂, rfl, rfl, rfl⟩ := List.map_eq_append_iff.1 split
  exact ⟨h₁, h₂, rfl, first, second⟩

/-- What was asked for first, and then the session's own work. -/
theorem Prompt.split (prompt : Prompt h) :
    ∃ own, h = outside h ++ own ∧ given own = [] := by
  induction h with
  | nil => exact ⟨[], rfl, rfl⟩
  | cons m rest ih =>
    obtain ⟨first, prompt⟩ := List.pairwise_cons.1 prompt
    by_cases work : m.deed.isWork = true
    · have all : ∀ m' ∈ m :: rest, m'.deed.isWork = true :=
        List.forall_mem_cons.2 ⟨work, fun m' inside => first m' inside work⟩
      refine ⟨m :: rest, ?_, ?_⟩
      · rw [outside, List.filter_eq_nil_iff.2 fun m' inside => by simp [all m' inside]]
        rfl
      · rw [given_eq_map_outside, outside,
          List.filter_eq_nil_iff.2 fun m' inside => by simp [all m' inside]]
        rfl
    · obtain ⟨own, same, nothing⟩ := ih prompt
      refine ⟨own, ?_, nothing⟩
      rw [outside_cons_of_not_work (by simpa using work), List.cons_append, ← same]

theorem Prompt.of_append (prompt : Prompt (h ++ h')) : Prompt h' :=
  (List.pairwise_append.1 prompt).2.1

theorem prompt_of_own (own : given h = []) : Prompt h :=
  (List.pairwise_iff_forall_sublist).2 fun sub _ =>
    isWork_of_given own _ (sub.subset (by simp))

end Outside

/-! ### Every run has an account -/

section Runs

variable {s s' : Session}

theorem performAll_operate (ops : List Monitor.Op) (s : Session) :
    s.performAll (ops.map .operate) = (s.operateAll ops).2 := by
  induction ops generalizing s with
  | nil => rfl
  | cons op ops ih => exact ih (s.operate op).2

theorem act_of_isInstant {st : Step} (instant : st.Instant) (s : Session) :
    (s.act st).2.2 = s.performAll st.deeds := by
  cases st with
  | monitor ops => exact (performAll_operate ops s).symm
  | advance milliseconds => rfl
  | shutdown => rfl
  | lines input => exact instant.elim
  | http request =>
    have direct := Http.direct_operations worker request
    rw [Step.deeds, performAll_operate, operateAll_of_direct direct, ← Http.snd_handle]
    rfl

theorem isWork_of_mem_deeds {st : Step} {deed : Deed} (inside : deed ∈ st.deeds) :
    deed.isWork = false := by
  rcases st.deeds_cases with ⟨milliseconds, same⟩ | same | operations
  · rw [same, List.mem_singleton] at inside
    rw [inside]
    rfl
  · rw [same, List.mem_singleton] at inside
    rw [inside]
    rfl
  · obtain ⟨op, rfl⟩ := operations deed inside
    rfl

theorem canPerformAll_of_not_work {deeds : List Deed} (asked : ∀ d ∈ deeds, d.isWork = false)
    (s : Session) : s.canPerformAll deeds = true := by
  induction deeds generalizing s with
  | nil => rfl
  | cons deed deeds ih =>
    obtain ⟨first, rest⟩ := List.forall_mem_cons.1 asked
    have can : s.canPerform deed = true := by
      cases deed with
      | take signal => cases first
      | fire t => cases first
      | _ => rfl
    rw [canPerformAll, can, ih rest]
    rfl

/-- What an instant step asks for is done at once, before the session's own work. -/
theorem path_of_instant {st : Step} (instant : st.Instant) (settles : Settles (s.act st).2.2 s') :
    ∃ h, Path s h s' ∧ given h = st.deeds ∧ Prompt h := by
  have asked : ∀ d ∈ st.deeds, d.isWork = false := fun d inside => isWork_of_mem_deeds inside
  have path := path_moments (canPerformAll_of_not_work asked s)
  obtain ⟨own, work, idle, -⟩ := path_of_work settles.1
  rw [act_of_isInstant instant] at work
  have deeds : given (s.moments st.deeds) = st.deeds := by
    rw [given, map_deed_moments, List.filter_eq_self.2 fun d inside => by simp [asked d inside]]
  -- what was asked for has no work in it, and nothing but work comes after it
  refine ⟨_, path.append work, ?_, List.pairwise_append.2 ⟨?_, prompt_of_own idle, ?_⟩⟩
  · rw [given_append, deeds, idle, List.append_nil]
  · refine List.Pairwise.imp_of_mem (R := fun _ _ => True) ?_ (List.pairwise_of_forall (by simp))
    intro m _ inside _ _ work
    have here : m.deed ∈ st.deeds := by
      rw [← map_deed_moments st.deeds s]
      exact List.mem_map_of_mem inside
    rw [asked _ here] at work
    cases work
  · exact fun _ _ m' inside _ => isWork_of_given idle m' inside

theorem account_of_runs {steps : List Step} (runs : Runs s steps s') :
    ∃ stages, Account s steps stages s' := by
  induction runs with
  | done s => exact ⟨[], .done s⟩
  | @step s s' s'' st steps settles _ ih =>
    obtain ⟨stages, rest⟩ := ih
    by_cases instant : st.Instant
    · obtain ⟨h, path, asked, prompt⟩ := path_of_instant instant settles
      exact ⟨_, .step path asked settles.2 (fun _ => prompt) rest⟩
    · obtain ⟨h, path, asked, -⟩ := path_act st s
      obtain ⟨own, work, idle, -⟩ := path_of_work settles.1
      refine ⟨_, .step (path.append work) ?_ settles.2 (fun isInstant => absurd isInstant instant)
        rest⟩
      rw [given_append, idle, asked, List.append_nil]

theorem Runs.split {s'' : Session} {steps later : List Step} (runs : Runs s (steps ++ later) s'') :
    ∃ s', Runs s steps s' ∧ Runs s' later s'' := by
  induction steps generalizing s with
  | nil => exact ⟨s, .done s, runs⟩
  | cons st steps ih =>
    cases runs with
    | step settles rest =>
      obtain ⟨s', before, after⟩ := ih rest
      exact ⟨s', .step settles before, after⟩

end Runs

/-! ### Two accounts side by side -/

/-- Before something that was asked for is done, the session may do some work of its own. -/
theorem Path.until {s s' : Session} {h : List Moment} {deed : Deed} {deeds : List Deed}
    (path : Path s h s') (same : given h = deed :: deeds) :
    ∃ own s₁ after rest, h = own ++ ⟨s₁, deed⟩ :: rest ∧ Path s own s₁ ∧ given own = [] ∧
      Does s₁ deed after ∧ Path after rest s' ∧ given rest = deeds := by
  induction path with
  | done s => cases same
  | @next s after _ first rest does path ih =>
    by_cases work : first.isWork = true
    · rw [given_cons_of_work (m := ⟨s, first⟩) work] at same
      obtain ⟨own, s₁, after', rest', rfl, before, nothing, does', path', left⟩ := ih same
      refine ⟨⟨s, first⟩ :: own, s₁, after', rest', rfl, .next does before, ?_, does', path', left⟩
      rw [given_cons_of_work (m := ⟨s, first⟩) work, nothing]
    · rw [given_cons_of_not_work (m := ⟨s, first⟩) (by simpa using work)] at same
      obtain ⟨rfl, left⟩ := List.cons.inj same
      exact ⟨[], s, after, rest, rfl, .done s, rfl, does, path, left⟩

/-- What the session's own work keeps, moment by moment, it keeps as a whole. -/
theorem Path.own_keeps {P : List Moment → Session → Prop} {s s' : Session} {h future : List Moment}
    (path : Path s h s') (nothing : given h = [])
    (kept : ∀ {s deed s' rest}, ⟨s, deed⟩ ∈ h → deed.isWork = true → Does s deed s' →
      P (⟨s, deed⟩ :: rest) s → P rest s')
    (start : P (h ++ future) s) : P future s' := by
  induction path with
  | done s => exact start
  | @next s after _ deed rest does _ ih =>
    have work : deed.isWork = true := isWork_of_given nothing ⟨s, deed⟩ List.mem_cons_self
    rw [given_cons_of_work (m := ⟨s, deed⟩) work] at nothing
    exact ih nothing (fun inside => kept (List.mem_cons_of_mem _ inside))
      (kept List.mem_cons_self work does start)

section Lockstep

variable {α : Type} {R : List Moment → List Moment → Session → Session → Prop} {f : Moment → α}
  {s s' t t' : Session} {h h' : List Moment}

/-- Two paths on which the same was asked for: `R` holds in the end if the session's own work keeps
it on either side, and so does what was asked for when it is done on both sides at once.  It may
hang on what is still to come, and shows in whatever is seen of what was asked for. -/
theorem Path.lockstep {future future' : List Moment} (path : Path s h s') (path' : Path t h' t')
    (same : given h' = given h)
    (own : ∀ {s deed s' t rest rest'}, ⟨s, deed⟩ ∈ h → deed.isWork = true → Does s deed s' →
      R (⟨s, deed⟩ :: rest) rest' s t → R rest rest' s' t)
    (own' : ∀ {t deed t' s rest rest'}, ⟨t, deed⟩ ∈ h' → deed.isWork = true → Does t deed t' →
      R rest (⟨t, deed⟩ :: rest') s t → R rest rest' s t')
    (both : ∀ {s t deed s' t' rest rest'}, ⟨s, deed⟩ ∈ h → ⟨t, deed⟩ ∈ h' → deed.isWork = false →
      Does s deed s' → Does t deed t' → R (⟨s, deed⟩ :: rest) (⟨t, deed⟩ :: rest') s t →
      R rest rest' s' t' ∧ f ⟨t, deed⟩ = f ⟨s, deed⟩)
    (start : R (h ++ future) (h' ++ future') s t) :
    R future future' s' t' ∧ (outside h').map f = (outside h).map f := by
  -- the first path sets the pace: where something is asked for on it, the second one catches up
  induction path generalizing h' t with
  | done s =>
    rw [outside_of_given same]
    exact ⟨path'.own_keeps (P := fun rest t => R future rest s t) same own' start, rfl⟩
  | @next s after _ deed rest does _ ih =>
    by_cases work : deed.isWork = true
    · rw [given_cons_of_work (m := ⟨s, deed⟩) work] at same
      rw [outside_cons_of_work (m := ⟨s, deed⟩) work]
      exact ih path' same (fun inside => own (List.mem_cons_of_mem _ inside)) own'
        (fun inside => both (List.mem_cons_of_mem _ inside))
        (own List.mem_cons_self work does start)
    · have asked : deed.isWork = false := by simpa using work
      rw [given_cons_of_not_work (m := ⟨s, deed⟩) asked] at same
      rw [outside_cons_of_not_work (m := ⟨s, deed⟩) asked]
      obtain ⟨before, t₁, after', rest', rfl, path₁, nothing, does', path₂, left⟩ :=
        path'.until same
      rw [outside_append, outside_of_given nothing, List.nil_append,
        outside_cons_of_not_work (m := ⟨t₁, deed⟩) asked]
      rw [List.append_assoc] at start
      have ready := path₁.own_keeps (P := fun rest' t => R (⟨s, deed⟩ :: rest ++ future) rest' s t)
        nothing (fun inside => own' (List.mem_append_left _ inside)) start
      obtain ⟨next, seen⟩ := both List.mem_cons_self (by simp) asked does does' ready
      obtain ⟨last, seenLater⟩ := ih path₂ left
        (fun inside => own (List.mem_cons_of_mem _ inside))
        (fun inside => own' (by simp [inside]))
        (fun inside inside' => both (List.mem_cons_of_mem _ inside) (by simp [inside'])) next
      exact ⟨last, congrArg₂ List.cons seen seenLater⟩

/-- What is seen of each step: of what was asked for, and of the session after it. -/
def Stage.seen {β : Type} (f : Moment → α) (g : Session → β) (stage : Stage) : List α × β :=
  ((outside stage.moments).map f, g stage.session)

/-- Two accounts of the same steps, in which every step keeps `R`. -/
theorem Account.lockstep {β : Type} {g : Session → β} {steps : List Step}
    {stages stages' : List Stage}
    (account : Account s steps stages s') (account' : Account t steps stages' t')
    (stage : ∀ {st h h' s s' t t' future future'}, st ∈ steps → Account s [st] [⟨h, s'⟩] s' →
      Account t [st] [⟨h', t'⟩] t' → R (h ++ future) (h' ++ future') s t →
        R future future' s' t' ∧ (outside h').map f = (outside h).map f)
    (rest : ∀ {future future' s t}, R future future' s t → g t = g s)
    (start : R (stages.flatMap (·.moments)) (stages'.flatMap (·.moments)) s t) :
    stages'.map (·.seen f g) = stages.map (·.seen f g) := by
  induction account generalizing t stages' with
  | done s =>
    cases account'
    rfl
  | @step s s₁ s' st steps h stages path asked settled prompt _ ih =>
    cases account' with
    | @step _ t₁ _ _ _ h' stages' path' asked' settled' prompt' account' =>
      obtain ⟨next, seen⟩ := stage List.mem_cons_self (.step path asked settled prompt (.done s₁))
        (.step path' asked' settled' prompt' (.done t₁)) start
      have later := ih account' (fun inside => stage (List.mem_cons_of_mem _ inside)) next
      exact congrArg₂ List.cons (Prod.ext seen (rest next)) later

end Lockstep

/-! ### Deeds in a given order -/

theorem moments_append (deeds deeds' : List Deed) (s : Session) :
    s.moments (deeds ++ deeds') = s.moments deeds ++ (s.performAll deeds).moments deeds' := by
  induction deeds generalizing s with
  | nil => rfl
  | cons deed deeds ih => exact congrArg (List.cons _) (ih (s.perform deed))

namespace Plan

def stages : Plan → Session → List Stage
  | [], _ => []
  | (_, deeds) :: plan, s =>
    ⟨s.moments deeds, s.performAll deeds⟩ :: stages plan (s.performAll deeds)

/-- The plan is possible, and in instant steps all that is asked for comes first. -/
def isAccount (plan : Plan) (s : Session) : Bool :=
  plan.isPossible s && plan.all fun (st, deeds) =>
    !decide st.Instant ||
      decide (deeds.Pairwise fun (d d' : Deed) => d.isWork = true → d'.isWork = true)

theorem account {plan : Plan} {s : Session} (h : plan.isAccount s = true) :
    Account s (plan.map (·.1)) (plan.stages s) (plan.last s) := by
  induction plan generalizing s with
  | nil => exact .done s
  | cons part plan ih =>
    obtain ⟨st, deeds⟩ := part
    simp only [isAccount, isPossible, List.all_cons, Bool.and_eq_true, decide_eq_true_eq,
      beq_iff_eq, Bool.or_eq_true, Bool.not_eq_true', decide_eq_false_iff_not] at h ih
    obtain ⟨⟨⟨⟨⟨possible, asked⟩, empty⟩, ahead⟩, rest⟩, prompt, later⟩ := h
    rw [List.all_eq_true] at ahead
    refine .step (path_moments possible) ?_
      (settled_of_pending empty fun t inside => of_decide_eq_true (ahead t inside)) ?_
      (ih ⟨rest, later⟩)
    · rw [given, map_deed_moments, asked]
    · intro instant
      have inOrder := prompt.resolve_left (absurd instant)
      rw [← map_deed_moments deeds s, List.pairwise_map] at inOrder
      exact inOrder

end Plan

end ScaleWatch.Session
