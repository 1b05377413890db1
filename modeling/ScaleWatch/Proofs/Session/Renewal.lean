import ScaleWatch.Proofs.Session.InDebt

/-!
# Keys that are registered anew

When a key is registered anew, a session goes on as if nothing had been asked for it before
(`registration_forgets`): the answers to what names the key, and its statistics, are those of a
session from whose past everything that names the key was deleted.

The registry has forgotten the key, but others may remember it.  A release of its gate that is left
from earlier may still be on its way: it finds the gate free, or a signal that was accepted since
has put it off (`InDebt`).  And other keys share the places of the registry and the slots of the
channel, so that what they do later may hang on what was asked for this one.  So it is supposed that
the key is admitted alike in both sessions, that its signals are accepted alike, and that no release
from earlier meets a signal that was dropped (`Unencumbered`).  None of this can be left out
(`not_registration_forgets`, `not_registration_forgets_encumbered`).
-/

namespace ScaleWatch.Session

/-! ### Registrations -/

/-- A session in which the key is registered in the midst of a step: the steps `before`, what was
`asked` in the same step, the `rest` of the step, and the steps `after` it. -/
structure Registration (k : Key) (s : Session) (before : List Step) (asked rest : List Deed)
    (after : List Step) where
  step : Step
  asks : step.deeds = asked ++ .operate (.register k) :: rest
  past : List Stage
  rested : Session
  begins : Account s before past rested
  /-- What happens in the step before the registration. -/
  earlier : List Moment
  /-- The session in which the key is registered. -/
  session : Session
  /-- What happens in the step after the registration. -/
  moments : List Moment
  ended : Session
  here : Account rested [step]
    [⟨earlier ++ ⟨session, .operate (.register k)⟩ :: moments, ended⟩] ended
  reached : given earlier = asked
  later : List Stage
  last : Session
  goesOn : Account ended after later last

/-- Lines register no key. -/
theorem instant_of_register {k : Key} {st : Step}
    (inside : .operate (.register k) ∈ st.deeds) : st.Instant := by
  cases st with
  | lines input => simp [Step.deeds] at inside
  | _ => trivial

theorem operations_of_register {k : Key} {st : Step}
    (inside : .operate (.register k) ∈ st.deeds) : ∀ deed ∈ st.deeds, ∃ op, deed = .operate op := by
  rcases st.deeds_cases with ⟨milliseconds, same⟩ | same | operations
  · rw [same] at inside
    cases List.mem_singleton.1 inside
  · rw [same] at inside
    cases List.mem_singleton.1 inside
  · exact operations

theorem not_fires_register {k k' : Key} {s : Session} :
    ¬Moment.Fires k' ⟨s, .operate (.register k)⟩ := by
  rintro ⟨d, firing⟩
  obtain ⟨t, b, count, judged, -⟩ := Monitor.judge_of_firing? firing
  rw [Monitor.effect] at judged
  split at judged <;> cases judged

namespace Registration

variable {k : Key} {s : Session} {before after : List Step} {asked rest : List Deed}

/-- The answer to the registration. -/
def answer (a : Registration k s before asked rest after) : Monitor.Answer :=
  (a.session.operate (.register k)).1

/-- The session after the registration. -/
def renewed (a : Registration k s before asked rest after) : Session :=
  (a.session.operate (.register k)).2

/-- The stages from the registration on. -/
def stages (a : Registration k s before asked rest after) : List Stage :=
  ⟨a.moments, a.ended⟩ :: a.later

/-- All that happens from the registration on. -/
def followed (a : Registration k s before asked rest after) : List Moment :=
  a.stages.flatMap (·.moments)

theorem registers (a : Registration k s before asked rest after) :
    .operate (.register k) ∈ a.step.deeds := by
  rw [a.asks]
  simp

/-- The step in which the key is registered asks for operations. -/
theorem operations (a : Registration k s before asked rest after) :
    ∀ deed ∈ asked ++ rest, ∃ op, deed = .operate op := by
  intro deed inside
  refine operations_of_register a.registers deed ?_
  rw [a.asks]
  rcases List.mem_append.1 inside with first | second
  · simp [first]
  · simp [second]

/-- The two parts of the step, before the registration and after it. -/
theorem parts (a : Registration k s before asked rest after) :
    Path a.rested a.earlier a.session ∧ Path a.renewed a.moments a.ended ∧
      given a.moments = rest ∧ a.ended.Settled ∧ Prompt a.moments := by
  obtain ⟨path, same, settled, prompt⟩ := a.here.single
  obtain ⟨renewed, arrives, does, leaves⟩ := path.at
  have goes : Path a.renewed a.moments a.ended := by
    cases does
    exact leaves
  have asks := a.asks
  rw [← same, given_split _ _ rfl, a.reached] at asks
  exact ⟨arrives, goes, (List.cons.inj (List.append_cancel_left asks)).2, settled,
    (List.pairwise_cons.1 (prompt (instant_of_register a.registers)).of_append).2⟩

theorem surroundings (a : Registration k s before asked rest after) :
    a.renewed.surroundings = (before.flatMap (·.deeds) ++ asked).foldl
      (fun x deed => deed.onSurroundings x) s.surroundings := by
  have arrives := a.begins.chronicle.path.append a.parts.1
  rw [renewed, surroundings_operate]
  refine arrives.surroundings.trans ?_
  rw [given_append, a.begins.given, a.reached]

/-- A key that is registered anew starts from zero. -/
theorem find (a : Registration k s before asked rest after) (isNew : a.answer = .flag true) :
    a.renewed.monitor.registry.find? k = some .zero := by
  have direct : (Monitor.Op.register k).isOnStream = false := rfl
  rw [answer, answer_of_direct direct] at isNew
  rw [renewed, operate_of_direct direct]
  exact Monitor.find?_of_register isNew

section Attended

variable {delay : Nat} (a : Registration k s before asked rest after)

theorem attended (attended : Attended delay s) (settled : s.Settled) :
    Attended delay a.session ∧ (delay = 0 ∨ Ahead a.session) ∧
      ∀ m ∈ a.past.flatMap (·.moments) ++ a.earlier, m.Orderly delay := by
  have chronicle := a.begins.chronicle
  have orderly := chronicle.orderly attended settled
  have rested := attended.along chronicle.path orderly
  have ahead : delay = 0 ∨ Ahead a.rested := .inr fun t => (chronicle.settled settled).ahead
  obtain ⟨orderly', ahead'⟩ := a.parts.1.orderly_of_operations rested ahead fun deed inside =>
    a.operations deed (List.mem_append_left _ (a.reached ▸ inside))
  exact ⟨rested.along a.parts.1 orderly', ahead',
    List.forall_mem_append.2 ⟨orderly, orderly'⟩⟩

/-- Where nothing named the key before, it owes nothing when it is registered. -/
theorem unscheduled (attended : Attended delay s) (settled : s.Settled)
    (unnamed : ∀ deed ∈ before.flatMap (·.deeds) ++ asked, deed.names k = false)
    (start : Unscheduled k s) : Unscheduled k a.renewed := by
  obtain ⟨-, -, orderly⟩ := a.attended attended settled
  have path := a.begins.chronicle.path.append a.parts.1
  obtain ⟨here, reached⟩ := path.undisturbed orderly
    (by rw [given_append, a.begins.given, a.reached]; exact unnamed) ⟨attended, start⟩
  obtain ⟨c, consumed⟩ := here.consumed
  have unqueued : a.renewed.queues k = a.session.queues k :=
    queues_of_not_accepts consumed fun fires => absurd fires not_fires_register
  exact ⟨(generation?_operate _ a.session k).trans reached.1, unqueued.trans reached.2⟩

end Attended

/-! ### Two registrations -/

section Two

variable {before' : List Step} {asked' : List Deed} (a : Registration k s before asked rest after)
  (b : Registration k s before' asked' rest after)

/-- Two sessions in which the key is registered anew look the same to it, if they differ only in
what named it before. -/
theorem alike (deleted : before'.flatMap (·.deeds) ++ asked' =
      (before.flatMap (·.deeds) ++ asked).filter (!·.names k))
    (isNew : a.answer = .flag true) (isNew' : b.answer = .flag true)
    (admitted : (outside b.followed).map (·.admitted? k) =
      (outside a.followed).map (·.admitted? k)) :
    Alike k a.followed b.followed a.renewed b.renewed := by
  have around : b.renewed.surroundings = a.renewed.surroundings := by
    rw [a.surroundings, b.surroundings, deleted, foldl_onSurroundings_filter]
  obtain ⟨now, thresholds, policy, capacity⟩ := Surroundings.mk.inj around
  exact ⟨⟨(b.find isNew').trans (a.find isNew).symm, thresholds, policy⟩, now, capacity, admitted⟩

theorem seen_of_leavesAlone (alike : Alike k a.followed b.followed a.renewed b.renewed)
    (leaves : LeavesAlone k s) : b.stages.map (·.seenOf k) = a.stages.map (·.seenOf k) := by
  have left {before asked} (a : Registration k s before asked rest after) :
      LeavesAlone k a.renewed := by
    have path := a.begins.chronicle.path.append a.parts.1
    have reached := path.invariant (P := fun _ s => LeavesAlone k s)
      (fun _ _ _ _ _ does leaves => leaves.does does) leaves
    exact reached.does (.operate _)
  obtain ⟨-, path, asks, -⟩ := a.parts
  obtain ⟨-, path', asks', -⟩ := b.parts
  obtain ⟨⟨alike, leaves, leaves'⟩, answers⟩ :=
    path.alike_of_leavesAlone path' (asks'.trans asks.symm) alike (left a) (left b)
  exact congrArg₂ List.cons (Prod.ext answers alike.stats)
    (a.goesOn.seen_of_leavesAlone b.goesOn alike leaves leaves')

/-- A release that is left from earlier does nothing to the key, unless it meets a signal that was
dropped. -/
theorem seen_of_attended {delay : Nat} (alike : Alike k a.followed b.followed a.renewed b.renewed)
    (attended : Attended delay s) (settled : s.Settled) (start : Unscheduled k s)
    (unnamed : ∀ deed ∈ before'.flatMap (·.deeds) ++ asked', deed.names k = false)
    (isNew : a.answer = .flag true)
    (accepted : List.Forall₂ (AcceptedAlike k) (outside a.followed) (outside b.followed))
    (unencumbered : Unencumbered k a.followed)
    (instant : delay = 0 → ∀ st ∈ after, st.Instant ∨ ∀ deed ∈ st.deeds, deed.names k = false) :
    b.stages.map (·.seenOf k) = a.stages.map (·.seenOf k) := by
  obtain ⟨attendedA, aheadA, -⟩ := a.attended attended settled
  obtain ⟨attendedB, aheadB, -⟩ := b.attended attended settled
  have renewedA : Attended delay a.renewed := attendedA.operate _
  have renewedB : Attended delay b.renewed := attendedB.operate _
  obtain ⟨due, owes⟩ := renewedA.owes k
  obtain ⟨due', owes'⟩ := renewedB.owes k
  have nothing := owes'.nothing (b.unscheduled attended settled unnamed start)
  have free : ¬a.renewed.monitor.Holds k := by
    rintro ⟨p, watched, gated⟩
    rw [a.find isNew] at watched
    cases watched
    cases gated
  -- what the first session still owes comes from the past of the key; the second owes nothing
  have debt : InDebt k delay a.followed b.followed a.renewed b.renewed :=
    ⟨alike, renewedA, renewedB, accepted, due, due', owes, owes',
      .inr ⟨nothing, free, unencumbered⟩⟩
  obtain ⟨-, path, asks, settledA, prompt⟩ := a.parts
  obtain ⟨-, path', asks', settledB, prompt'⟩ := b.parts
  have operations : ∀ deed ∈ given a.moments, ∃ op, deed = .operate op := by
    rw [asks]
    exact fun deed inside => a.operations deed (List.mem_append_right _ inside)
  obtain ⟨debt, answers⟩ := debt.operations path path' (asks'.trans asks.symm) operations
    (aheadA.imp_right (·.operate _)) (aheadB.imp_right (·.operate _)) (fun _ => ⟨prompt, prompt'⟩)
    settledA settledB
  exact congrArg₂ List.cons (Prod.ext answers debt.alike.stats)
    (a.goesOn.seen_of_inDebt b.goesOn instant settledA settledB debt)

end Two

end Registration

/-! ### Every session with a registration -/

theorem exists_registration_of_runs {k : Key} {s s' : Session} {before after : List Step}
    {asked rest : List Deed} {st : Step} (asks : st.deeds = asked ++ .operate (.register k) :: rest)
    (runs : Runs s (before ++ st :: after) s') :
    ∃ a : Registration k s before asked rest after, a.step = st ∧ a.last = s' := by
  obtain ⟨rested, first, runs⟩ := runs.split
  cases runs with
  | step settles runs =>
    obtain ⟨past, begins⟩ := account_of_runs first
    obtain ⟨stages, here⟩ := account_of_runs (.step settles (.done _))
    obtain ⟨later, goesOn⟩ := account_of_runs runs
    cases here with
    | step path same settled prompt rest =>
      cases rest
      obtain ⟨h, h', rfl, reached, remains⟩ := exists_of_given_append (same.trans asks)
      obtain ⟨s₁, path₁, path₂⟩ := path.split
      obtain ⟨own, session, renewed, moments, rfl, -, nothing, does, -, -⟩ := path₂.until remains
      exact ⟨⟨st, asks, past, rested, begins, h ++ own, session, moments, _,
        .step (by simpa using path) (by simpa using same) settled (by simpa using prompt) (.done _),
        by rw [given_append, reached, nothing, List.append_nil], later, _, goesOn⟩, rfl, rfl⟩

/-- When a key is registered anew, what was asked for it before is forgotten. -/
theorem registration_forgets (settings : Monitor.Settings) (consumed : Bool) (delay : Option Nat)
    (k : Key) {before before' after : List Step} {asked asked' rest : List Deed}
    (deleted : before'.flatMap (·.deeds) ++ asked' =
      (before.flatMap (·.deeds) ++ asked).filter (!·.names k)) :
    (∀ st s, st.deeds = asked ++ .operate (.register k) :: rest →
      Runs (.new (.new settings) consumed delay) (before ++ st :: after) s →
        ∃ a : Registration k (.new (.new settings) consumed delay) before asked rest after,
          a.step = st ∧ a.last = s) ∧
    (∀ st s, st.deeds = asked' ++ .operate (.register k) :: rest →
      Runs (.new (.new settings) consumed delay) (before' ++ st :: after) s →
        ∃ b : Registration k (.new (.new settings) consumed delay) before' asked' rest after,
          b.step = st ∧ b.last = s) ∧
    ∀ (a : Registration k (.new (.new settings) consumed delay) before asked rest after)
      (b : Registration k (.new (.new settings) consumed delay) before' asked' rest after),
      a.answer = .flag true → b.answer = .flag true →
      (outside b.followed).map (·.admitted? k) = (outside a.followed).map (·.admitted? k) →
      (∀ d, consumed = true → delay = some d → settings.policy = .latched →
        List.Forall₂ (AcceptedAlike k) (outside a.followed) (outside b.followed) ∧
          Unencumbered k a.followed ∧
          (d = 0 → ∀ st ∈ after, st.Instant ∨ ∀ deed ∈ st.deeds, deed.names k = false)) →
      b.stages.map (·.seenOf k) = a.stages.map (·.seenOf k) := by
  refine ⟨fun st s => exists_registration_of_runs, fun st s => exists_registration_of_runs, ?_⟩
  intro a b isNew isNew' admitted released
  have alike := a.alike b deleted isNew isNew' admitted
  -- either no session ever releases a gate by itself, or both do
  by_cases still : consumed = true → settings.policy = .latched → delay = none
  · exact a.seen_of_leavesAlone b alike (leavesAlone_new settings still k)
  · push Not at still
    obtain ⟨rfl, latched, given⟩ := still
    obtain ⟨d, rfl⟩ := Option.ne_none_iff_exists'.1 given
    obtain ⟨accepted, unencumbered, instant⟩ := released d rfl rfl latched
    refine a.seen_of_attended b alike (attended_new (.new settings) d)
      (settled_new settings true (some d)) (unscheduled_new settings true (some d)) ?_ isNew
      accepted unencumbered fun zero => instant ?_
    · rw [deleted]
      exact fun deed inside => by simpa using (List.mem_filter.1 inside).2
    · exact (Nat.min_eq_zero_iff.1 zero).resolve_right (by decide)

/-- The registration of the key that a plan makes. -/
def Registration.ofPlan {k : Key} {s : Session} (before : Plan) (st : Step)
    (earlier moments : List Deed) (after : Plan) (begins : before.isAccount s = true)
    (here : Plan.isAccount [(st, earlier ++ .operate (.register k) :: moments)] (before.last s) =
      true)
    (goesOn : after.isAccount ((before.last s).performAll
      (earlier ++ .operate (.register k) :: moments)) = true) :
    Registration k s (before.map (·.1)) (earlier.filter (!·.isWork)) (moments.filter (!·.isWork))
      (after.map (·.1)) where
  step := st
  asks := by
    simp only [Plan.isAccount, Plan.isPossible, Bool.and_eq_true, decide_eq_true_eq] at here
    obtain ⟨⟨⟨⟨⟨-, asks⟩, -⟩, -⟩, -⟩, -⟩ := here
    rw [← asks, List.filter_append]
    rfl
  past := before.stages s
  rested := before.last s
  begins := Plan.account begins
  earlier := (before.last s).moments earlier
  session := (before.last s).performAll earlier
  moments := (((before.last s).performAll earlier).operate (.register k)).2.moments moments
  ended := (before.last s).performAll (earlier ++ .operate (.register k) :: moments)
  here := by
    have account := Plan.account here
    rw [Plan.stages, moments_append] at account
    exact account
  reached := by rw [given, map_deed_moments]
  later := after.stages _
  last := after.last _
  goesOn := Plan.account goesOn

/-- What is done in a step in which the key is registered and fires. -/
def registersAndFires : Step :=
  .monitor [.register (.port 1), .transition 0 (.port 1) .closed]

/-- A key that fires is unregistered, and registered anew while the release of its gate is waiting;
it fires again, and the release does nothing when its time comes. -/
def gatedAgain : Registration (.port 1) (.new (.new ⟨.latched, 16, 1, 1⟩) true (some 200))
    [.monitor [.store ⟨2, 10, 1⟩, .register (.port 1), .register (.port 2),
      .transition 0 (.port 1) .closed], .advance 100, .monitor [.unregister (.port 1)]]
    [] [.operate (.transition 0 (.port 1) .closed)] [.advance 100, .advance 100] :=
  .ofPlan
    [(_, [.operate (.store ⟨2, 10, 1⟩), .operate (.register (.port 1)),
        .operate (.register (.port 2)), .operate (.transition 0 (.port 1) .closed),
        .take ⟨.port 1, .scaleDown, some 1⟩]),
      (_, [.advance 100]), (_, [.operate (.unregister (.port 1))])]
    registersAndFires []
    [.operate (.transition 0 (.port 1) .closed), .take ⟨.port 1, .scaleDown, some 1⟩]
    [(_, [.advance 100, .fire ⟨.port 1, 1, 200⟩]), (_, [.advance 100, .fire ⟨.port 1, 2, 300⟩])]
    (by decide +kernel) (by decide +kernel) (by decide +kernel)

/-- The same key, which was never named before. -/
def gatedOnce : Registration (.port 1) (.new (.new ⟨.latched, 16, 1, 1⟩) true (some 200))
    [.monitor [.store ⟨2, 10, 1⟩, .register (.port 2)], .advance 100]
    [] [.operate (.transition 0 (.port 1) .closed)] [.advance 100, .advance 100] :=
  .ofPlan
    [(_, [.operate (.store ⟨2, 10, 1⟩), .operate (.register (.port 2))]), (_, [.advance 100])]
    registersAndFires []
    [.operate (.transition 0 (.port 1) .closed), .take ⟨.port 1, .scaleDown, some 1⟩]
    [(_, [.advance 100]), (_, [.advance 100, .fire ⟨.port 1, 1, 300⟩])]
    (by decide +kernel) (by decide +kernel) (by decide +kernel)

/-- The gate that is taken anew is held until the release of its own signal. -/
theorem registration_forgets_gatedAgain :
    gatedAgain.answer = .flag true ∧ gatedOnce.answer = .flag true ∧
      gatedOnce.stages.map (·.seenOf (.port 1)) = gatedAgain.stages.map (·.seenOf (.port 1)) ∧
      gatedAgain.stages.map (·.seenOf (.port 1)) =
        [([some (.signal (some .scaleDown))], some (.port 1, ⟨0, 0, true⟩)),
          ([none], some (.port 1, ⟨0, 0, true⟩)), ([none], some (.port 1, ⟨0, 0, false⟩))] := by
  have isNew : gatedAgain.answer = .flag true := by decide +kernel
  have isNew' : gatedOnce.answer = .flag true := by decide +kernel
  have unencumbered : Unencumbered (.port 1) gatedAgain.followed := by decide +kernel
  have seen := (registration_forgets ⟨.latched, 16, 1, 1⟩ true (some 200) (.port 1)
    (by decide +kernel)).2.2 gatedAgain gatedOnce isNew isNew' (by decide +kernel)
    fun d _ given _ => ⟨by decide +kernel, unencumbered, by
      cases given
      exact fun zero => nomatch zero⟩
  exact ⟨isNew, isNew', seen, by decide +kernel⟩

/-- When a key is unregistered and registered anew, whatever follows, its statistics are in the end
as if nothing had named it before. -/
def Forgets (settings : Monitor.Settings) (consumed : Bool) (delay : Option Nat) : Prop :=
  ∀ (k : Key) (before without after : List Step) (s t : Session),
    without.flatMap (·.deeds) = (before.flatMap (·.deeds)).filter (!·.names k) →
    s = run before (.new (.new settings) consumed delay) →
    t = run without (.new (.new settings) consumed delay) →
    (s.operate (.unregister k)).1 = .flag true →
    ((s.operate (.unregister k)).2.operate (.register k)).1 = .flag true →
    (t.operate (.register k)).1 = .flag true →
    (run (.monitor [.unregister k] :: .monitor [.register k] :: after) s).monitor.stats? k =
      (run (.monitor [.register k] :: after) t).monitor.stats? k

/-- Other keys may remember.  A key whose signal was dropped because this one had taken the slot is
silent later, and leaves the slot to this one.  A key that was refused because this one had taken
the last place leaves it a place later. -/
theorem not_registration_forgets :
    ¬Forgets ⟨.latched, 16, 1, 1⟩ true (some 200) ∧ ¬Forgets ⟨.latched, 2, 1, 1⟩ false none := by
  constructor
  · intro forgets
    have same := forgets (.port 1)
      [.monitor [.store ⟨2, 10, 1⟩, .register (.port 1), .register (.port 2),
        .transition 0 (.port 1) .closed, .transition 0 (.port 2) .closed], .advance 200]
      [.monitor [.store ⟨2, 10, 1⟩, .register (.port 2), .transition 0 (.port 2) .closed],
        .advance 200]
      [.monitor [.transition 0 (.port 2) .closed, .transition 0 (.port 1) .closed], .advance 200]
      _ _ (by decide +kernel) rfl rfl (by decide +kernel) (by decide +kernel) (by decide +kernel)
    exact absurd same (by decide +kernel)
  · intro forgets
    have same := forgets (.port 1)
      [.monitor [.register (.port 4), .register (.port 1), .register (.port 3),
        .unregister (.port 4)]]
      [.monitor [.register (.port 4), .register (.port 3), .unregister (.port 4)]]
      [.monitor [.unregister (.port 1), .register (.port 2), .register (.port 1)]]
      _ _ (by decide +kernel) rfl rfl (by decide +kernel) (by decide +kernel) (by decide +kernel)
    exact absurd same (by decide +kernel)

/-- The signal of a key that is registered anew is dropped, since the consumer has stopped, while
the release for an earlier signal is waiting. -/
def gatedOnRelease : Registration (.port 1) (.new (.new ⟨.latched, 16, 1, 1⟩) true (some 200))
    [.monitor [.store ⟨2, 10, 1⟩, .register (.port 1), .transition 0 (.port 1) .closed],
      .advance 100, .shutdown, .monitor [.unregister (.port 1)]]
    [] [.operate (.transition 0 (.port 1) .closed)] [.advance 100] :=
  .ofPlan
    [(_, [.operate (.store ⟨2, 10, 1⟩), .operate (.register (.port 1)),
        .operate (.transition 0 (.port 1) .closed), .take ⟨.port 1, .scaleDown, some 1⟩]),
      (_, [.advance 100]), (_, [.stop]), (_, [.operate (.unregister (.port 1))])]
    registersAndFires [] [.operate (.transition 0 (.port 1) .closed)]
    [(_, [.advance 100, .fire ⟨.port 1, 1, 200⟩])]
    (by decide +kernel) (by decide +kernel) (by decide +kernel)

/-- The same key, which was never named before. -/
def gatedForGood : Registration (.port 1) (.new (.new ⟨.latched, 16, 1, 1⟩) true (some 200))
    [.monitor [.store ⟨2, 10, 1⟩], .advance 100, .shutdown]
    [] [.operate (.transition 0 (.port 1) .closed)] [.advance 100] :=
  .ofPlan
    [(_, [.operate (.store ⟨2, 10, 1⟩)]), (_, [.advance 100]), (_, [.stop])]
    registersAndFires [] [.operate (.transition 0 (.port 1) .closed)] [(_, [.advance 100])]
    (by decide +kernel) (by decide +kernel) (by decide +kernel)

/-- A session may remember the key itself: a release that is left from earlier frees the gate that
was taken anew, if the signal was dropped.  So `Unencumbered` cannot be left out. -/
theorem not_registration_forgets_encumbered :
    let start : Session := .new (.new ⟨.latched, 16, 1, 1⟩) true (some 200)
    ¬∀ (k : Key) (before before' after : List Step) (asked asked' rest : List Deed)
      (a : Registration k start before asked rest after)
      (b : Registration k start before' asked' rest after),
      before'.flatMap (·.deeds) ++ asked' =
        (before.flatMap (·.deeds) ++ asked).filter (!·.names k) →
      a.answer = .flag true → b.answer = .flag true →
      (outside b.followed).map (·.admitted? k) = (outside a.followed).map (·.admitted? k) →
      List.Forall₂ (AcceptedAlike k) (outside a.followed) (outside b.followed) →
      b.stages.map (·.seenOf k) = a.stages.map (·.seenOf k) := by
  intro start forgets
  have freed : gatedOnRelease.stages.map (·.seenOf (.port 1)) =
      [([some (.signal (some .scaleDown))], some (.port 1, ⟨0, 0, true⟩)),
        ([none], some (.port 1, ⟨0, 0, false⟩))] := by
    decide +kernel
  have held : gatedForGood.stages.map (·.seenOf (.port 1)) =
      [([some (.signal (some .scaleDown))], some (.port 1, ⟨0, 0, true⟩)),
        ([none], some (.port 1, ⟨0, 0, true⟩))] := by
    decide +kernel
  have same := forgets _ _ _ _ _ _ _ gatedOnRelease gatedForGood (by decide +kernel)
    (by decide +kernel) (by decide +kernel) (by decide +kernel) (by decide +kernel)
  rw [freed, held] at same
  exact absurd same (by decide)

end ScaleWatch.Session
