import Mathlib.Order.Interval.Finset.Nat
import ScaleWatch.Proofs.Monitor.Journal
import ScaleWatch.Proofs.Pressure.SignalLaw

/-!
# Every signal has evaluations of its own

A signal that is received was sent by one evaluation of its key, and that evaluation was the last
of a window of evaluations, as long as the signal says, all of which fell into one registration
and were out of band, and none of which had fired before.  The windows of two signals of a key have
no evaluation in common.  `received_signals_justified` is this for every run of a monitor.

What carries the proof is `Building`: the run of a key is at every moment the length of a window
that could still be completed.
-/

namespace ScaleWatch

/-! ### Windows -/

def Evaluation.OutOfBand (e : Evaluation) : Prop :=
  e.count ≤ e.bounds.lower ∨ e.bounds.upper ≤ e.count

namespace Sent

/-- The number of evaluations that a signal stands for. -/
def width (x : Sent) : Nat :=
  max 1 (x.signal.bufferLength.elim 0 UInt32.toNat)

/-- The numbers of the last evaluations of the key, up to the one that sent the signal. -/
def window (x : Sent) : Finset Nat :=
  Finset.Ico (x.origin + 1 - x.width) (x.origin + 1)

/-- Two signals were not sent by the same evaluation. -/
def Apart (x y : Sent) : Prop :=
  x.signal.key = y.signal.key → x.origin ≠ y.origin

theorem pairwise_apart_of_subperm {sent moved : List Sent} (h : sent.Pairwise Apart)
    (subperm : moved.Subperm sent) : moved.Pairwise Apart := by
  obtain ⟨rest, perm, sublist⟩ := subperm
  refine (perm.pairwise_iff fun {x y} apart same => ?_).1 (h.sublist sublist)
  exact (apart same.symm).symm

/-- Evaluations of its key stand behind a signal. -/
structure Justified (es : List Evaluation) (x : Sent) : Prop where
  enough : x.width ≤ x.origin + 1
  origin : ∃ e, es[x.origin]? = some e ∧ e.fired = some x.signal.direction ∧
    x.signal.bufferLength = some e.bounds.bufferLength ∧
    (x.signal.direction = .scaleDown ↔ e.count ≤ e.bounds.lower)
  window : ∃ term, ∀ i ∈ x.window, ∃ e, es[i]? = some e ∧ e.term = some term ∧ e.OutOfBand ∧
    (e.fired.isSome ↔ i = x.origin)

variable {es : List Evaluation} {x y : Sent}

theorem mem_window {i : Nat} : i ∈ x.window ↔ x.origin + 1 ≤ i + x.width ∧ i ≤ x.origin := by
  rw [window, Finset.mem_Ico]
  omega

theorem Justified.origin_lt (h : Justified es x) : x.origin < es.length := by
  obtain ⟨e, here, -⟩ := h.origin
  exact (List.getElem?_eq_some_iff.1 here).1

/-- Later evaluations do not matter to a signal. -/
theorem Justified.append (h : Justified es x) (e : Evaluation) : Justified (es ++ [e]) x := by
  have early : ∀ i ≤ x.origin, (es ++ [e])[i]? = es[i]? := fun i le =>
    List.getElem?_append_left (Nat.lt_of_le_of_lt le h.origin_lt)
  refine ⟨h.enough, ?_, ?_⟩
  · rw [early _ (Nat.le_refl _)]
    exact h.origin
  · obtain ⟨term, all⟩ := h.window
    refine ⟨term, fun i inside => ?_⟩
    rw [early i (mem_window.1 inside).2]
    exact all i inside

/-- An evaluation that fired is in the window of no later signal. -/
theorem Justified.not_mem_window (hx : Justified es x) (hy : Justified es y)
    (before : x.origin < y.origin) : x.origin ∉ y.window := by
  intro inside
  obtain ⟨e, here, fired, -⟩ := hx.origin
  obtain ⟨term, all⟩ := hy.window
  obtain ⟨e', same, -, -, only⟩ := all x.origin inside
  rw [here, Option.some_inj] at same
  have := only.1 (by rw [← same, fired]; rfl)
  omega

theorem Justified.disjoint_of_lt (hx : Justified es x) (hy : Justified es y)
    (before : x.origin < y.origin) : Disjoint x.window y.window := by
  have apart := hx.not_mem_window hy before
  rw [Finset.disjoint_left]
  intro i first second
  rw [mem_window] at first second apart
  omega

theorem Justified.disjoint (hx : Justified es x) (hy : Justified es y) (ne : x.origin ≠ y.origin) :
    Disjoint x.window y.window := by
  rcases Nat.lt_or_gt_of_ne ne with before | after
  · exact hx.disjoint_of_lt hy before
  · exact (hy.disjoint_of_lt hx after).symm

end Sent

/-! ### How a window grows -/

/-- The run of a pressure is the number of the latest evaluations that may become the beginning of
a window: they fell into the current registration, were out of band and did not fire. -/
structure Building (es : List Evaluation) (term : Nat) (p : Pressure) : Prop where
  le : p.run.toNat ≤ es.length
  recent : ∀ i < es.length, es.length ≤ i + p.run.toNat →
    ∃ e, es[i]? = some e ∧ e.term = some term ∧ e.OutOfBand ∧ e.fired = none
  gated : p.gated = true → p.run = 0

section Building

variable {es : List Evaluation} {term : Nat} {p : Pressure}

theorem building_of_run_eq_zero (h : p.run = 0) : Building es term p := by
  have none_yet : p.run.toNat = 0 := by rw [h]; rfl
  refine ⟨by omega, fun i inside reach => ?_, fun _ => h⟩
  omega

theorem Building.of_eq {p' : Pressure} (h : Building es term p) (run : p'.run = p.run)
    (gated : p'.gated = true → p.gated = true) : Building es term p' := by
  refine ⟨?_, ?_, fun held => ?_⟩
  · rw [run]
    exact h.le
  · rw [run]
    exact h.recent
  · rw [run]
    exact h.gated (gated held)

theorem Building.moved (h : Building es term p) (t : Option Transition) :
    Building es term (Monitor.moved t p) := by
  rcases t with _ | _ | _ <;> exact h.of_eq rfl id

theorem Building.concat {e : Evaluation} {p' : Pressure} (h : Building es term p)
    (grown : p'.run.toNat = p.run.toNat + 1) (free : p'.gated = false)
    (current : e.term = some term) (outside : e.OutOfBand) (silent : e.fired = none) :
    Building (es ++ [e]) term p' := by
  refine ⟨?_, fun i inside reach => ?_, fun held => ?_⟩
  · rw [grown, List.length_append, List.length_singleton]
    exact Nat.add_le_add_right h.le 1
  · rw [List.length_append, List.length_singleton] at inside reach
    rcases Nat.lt_or_eq_of_le (Nat.le_of_lt_succ inside) with older | rfl
    · rw [List.getElem?_append_left older]
      exact h.recent i older (by omega)
    · exact ⟨e, by simp, current, outside, silent⟩
  · rw [free] at held
    cases held

theorem Building.evaluate (h : Building es term p) (policy : GatePolicy) (b : Bounds)
    (count : UInt32) :
    Building (es ++ [⟨some term, b, count, (p.evaluate policy b count).1⟩]) term
      (p.evaluate policy b count).2 := by
  by_cases held : p.gated = true
  · -- A held gate has no run, so a suppressed evaluation interrupts no window.
    rw [Pressure.evaluate_of_gated held]
    exact building_of_run_eq_zero (h.gated held)
  have free : p.gated = false := by simpa using held
  by_cases outside : b.outOfBand count = true
  · by_cases full : b.bufferLength ≤ Pressure.successor p.run
    · rw [Pressure.evaluate_of_full free outside full]
      exact building_of_run_eq_zero rfl
    · rw [Pressure.evaluate_of_short free outside full]
      have grown := (Pressure.toNat_run_add_one full).1
      exact h.concat grown free rfl (Pressure.outOfBand_iff.1 outside) rfl
  · rw [Pressure.evaluate_of_inBand free (by simpa using outside)]
    exact building_of_run_eq_zero rfl

/-- An evaluation that fires completes a window, as long as its bounds ask for. -/
theorem Building.justified (h : Building es term p) {policy : GatePolicy} {b : Bounds}
    {count : UInt32} {d : Direction} (fired : (p.evaluate policy b count).1 = some d) (k : Key) :
    Sent.Justified (es ++ [⟨some term, b, count, some d⟩])
      ⟨⟨k, d, some b.bufferLength⟩, es.length⟩ := by
  have here : (es ++ [⟨some term, b, count, some d⟩])[es.length]? =
      some (⟨some term, b, count, some d⟩ : Evaluation) := by
    simp
  have free : p.gated = false := by
    by_contra held
    rw [Pressure.evaluate_of_gated (by simpa using held)] at fired
    cases fired
  have outside : b.outOfBand count = true := by
    by_contra inside
    rw [Pressure.evaluate_of_inBand free (by simpa using inside)] at fired
    cases fired
  have full : b.bufferLength ≤ Pressure.successor p.run := by
    by_contra short
    rw [Pressure.evaluate_of_short free outside short] at fired
    cases fired
  rw [Pressure.evaluate_of_full free outside full, Option.some_inj] at fired
  have width : Sent.width ⟨⟨k, d, some b.bufferLength⟩, es.length⟩ ≤ p.run.toNat + 1 :=
    Nat.max_le.2 ⟨Nat.le_add_left 1 _, Pressure.toNat_le_of_le_successor full⟩
  have le := h.le
  refine ⟨?_, ⟨_, here, rfl, rfl, ?_⟩, term, fun i inside => ?_⟩
  · exact Nat.le_trans width (Nat.add_le_add_right le 1)
  · rw [← fired]
    unfold Bounds.direction
    split <;> simp_all
  · rw [Sent.mem_window] at inside
    dsimp only at inside
    rcases Nat.lt_or_eq_of_le inside.2 with older | rfl
    · obtain ⟨e, found, current, out, silent⟩ := h.recent i older (by omega)
      refine ⟨e, by rw [List.getElem?_append_left older, found], current, out, ?_⟩
      rw [silent]
      constructor
      · intro impossible
        cases impossible
      · intro same
        exact absurd same (Nat.ne_of_lt older)
    · exact ⟨_, here, rfl, Pressure.outOfBand_iff.1 outside, by simp⟩

end Building

/-! ### What a journal keeps -/

namespace Journal

/-- A journal says the truth about its monitor and about the signals that were sent. -/
structure Faithful (j : Journal) : Prop where
  beside : Sent.Beside j.slots j.monitor.channel
  building : ∀ k p, j.monitor.registry.find? k = some p →
    Building (j.evaluations k) (j.terms k) p
  justified : ∀ x ∈ j.sent, x.Justified (j.evaluations x.signal.key)
  distinct : j.sent.Pairwise Sent.Apart
  made : ∀ r ∈ j.receipts, r.sent.origin < r.made

theorem faithful_new (s : Monitor.Settings) : (new s).Faithful := by
  have nothing : (new s).sent = [] := by
    show [] ++ (Sent.empty (Monitor.new s).channel.slots).flatten = []
    rw [List.nil_append, Sent.flatten_empty]
  refine ⟨Sent.beside_empty_new _ _, ?_, ?_, ?_, ?_⟩
  · intro k p watched
    cases watched
  · rw [nothing]
    intro x inside
    cases inside
  · rw [nothing]
    exact .nil
  · intro r inside
    cases inside

section Step

variable {j : Journal}

/-- As long as no evaluation is made and no signal moves, only the registry matters. -/
theorem Faithful.of_registry (h : j.Faithful) {m : Monitor} {terms : Key → Nat}
    (channel : m.channel = j.monitor.channel)
    (building : ∀ k p, m.registry.find? k = some p → Building (j.evaluations k) (terms k) p) :
    Faithful { j with monitor := m, terms } :=
  ⟨by rw [channel]; exact h.beside, building, h.justified, h.distinct, h.made⟩

theorem Faithful.watch (h : j.Faithful) {k : Key} {m : Monitor}
    (leads : (Monitor.Effect.watch k).Leads j.monitor m) :
    Faithful { j with
      monitor := m, terms := fun k' => if k' = k then j.terms k + 1 else j.terms k' } := by
  refine h.of_registry leads.channel fun k' p watched => ?_
  rw [leads.find] at watched
  simp only [Monitor.Effect.on] at watched
  by_cases same : k' = k
  · rw [if_pos same, Option.some_inj] at watched
    rw [← watched]
    exact building_of_run_eq_zero rfl
  · rw [if_neg same] at watched ⊢
    exact h.building k' p watched

/-- Forgetting, releasing and moving a key do not lengthen its run. -/
theorem Faithful.of_on (h : j.Faithful) {e : Monitor.Effect} {m : Monitor}
    (leads : e.Leads j.monitor m) (channel : e.onChannel j.monitor = j.monitor.channel)
    (kept : ∀ k before after, e.on j.monitor.policy k before = some after →
      ∃ p, before = some p ∧ after.run = p.run ∧ (after.gated = true → p.gated = true)) :
    Faithful { j with monitor := m } := by
  refine h.of_registry (leads.channel.trans channel) fun k after watched => ?_
  rw [leads.find] at watched
  obtain ⟨p, before, run, gated⟩ := kept k _ after watched
  exact (h.building k p before).of_eq run gated

theorem Faithful.forget (h : j.Faithful) {k : Key} {m : Monitor}
    (leads : (Monitor.Effect.forget k).Leads j.monitor m) : Faithful { j with monitor := m } := by
  refine h.of_on leads rfl fun k' before after watched => ?_
  simp only [Monitor.Effect.on] at watched
  split at watched
  · cases watched
  · exact ⟨after, watched, rfl, id⟩

theorem Faithful.release (h : j.Faithful) {k : Key} {m : Monitor}
    (leads : (Monitor.Effect.release k).Leads j.monitor m) : Faithful { j with monitor := m } := by
  refine h.of_on leads rfl fun k' before after watched => ?_
  simp only [Monitor.Effect.on] at watched
  split at watched
  · obtain ⟨p, rfl, rfl⟩ := Option.map_eq_some_iff.1 watched
    exact ⟨p, rfl, rfl, fun held => by cases held⟩
  · exact ⟨after, watched, rfl, id⟩

theorem Faithful.move (h : j.Faithful) {k : Key} {t : Transition} {m : Monitor}
    (leads : (Monitor.Effect.move k t).Leads j.monitor m) : Faithful { j with monitor := m } := by
  refine h.of_on leads rfl fun k' before after watched => ?_
  simp only [Monitor.Effect.on] at watched
  split at watched
  · obtain ⟨p, rfl, rfl⟩ := Option.map_eq_some_iff.1 watched
    cases t <;> exact ⟨p, rfl, rfl, id⟩
  · exact ⟨after, watched, rfl, id⟩

theorem Faithful.idle (h : j.Faithful) {m : Monitor}
    (leads : Monitor.Effect.idle.Leads j.monitor m) : Faithful { j with monitor := m } :=
  h.of_on leads rfl fun _ _ after watched => ⟨after, watched, rfl, id⟩

/-- Signals that move on, or are lost, are justified as before. -/
theorem Faithful.of_sent (h : j.Faithful) {m : Monitor} {slots : List (List Sent)}
    {receipts : List Receipt} (find : ∀ k, m.registry.find? k = j.monitor.registry.find? k)
    (beside : Sent.Beside slots m.channel)
    (moved : (receipts.map (·.sent) ++ slots.flatten).Subperm j.sent)
    (made : ∀ r ∈ receipts, r.sent.origin < r.made) :
    Faithful { j with monitor := m, slots, receipts } := by
  refine ⟨beside, fun k p watched => ?_, fun x inside => ?_, ?_, made⟩
  · rw [find] at watched
    exact h.building k p watched
  · exact h.justified x (moved.subset inside)
  · exact Sent.pairwise_apart_of_subperm h.distinct moved

theorem Faithful.take (h : j.Faithful) {limit : Nat} {m : Monitor}
    (leads : (Monitor.Effect.take limit).Leads j.monitor m) :
    Faithful { j.take limit with monitor := m } := by
  refine h.of_sent leads.find ?_ (sent_take h.beside limit).subperm fun r inside => ?_
  · rw [leads.channel]
    exact (h.beside.takeUpTo limit).2.1
  · rcases List.mem_append.1 inside with old | new
    · exact h.made r old
    · obtain ⟨x, taken, rfl⟩ := List.mem_map.1 new
      have queued : x ∈ j.slots.flatten :=
        (h.beside.takeUpTo limit).2.2.subset (List.mem_append_left _ taken)
      exact (h.justified x (List.mem_append_right _ queued)).origin_lt

theorem Faithful.close (h : j.Faithful) {m : Monitor}
    (leads : Monitor.Effect.close.Leads j.monitor m) :
    Faithful { j with monitor := m, slots := Sent.empty j.slots } := by
  refine h.of_sent leads.find ?_ ?_ h.made
  · rw [leads.channel]
    exact h.beside.dropStream
  · rw [Sent.flatten_empty, List.append_nil]
    exact (List.sublist_append_left _ _).subperm

/-- With one more evaluation of a key, what was sent before stays justified. -/
theorem Faithful.justified_concat (h : j.Faithful) (k : Key) (e : Evaluation) {x : Sent}
    (inside : x ∈ j.sent) :
    x.Justified
      (if x.signal.key = k then j.evaluations k ++ [e] else j.evaluations x.signal.key) := by
  have before := h.justified x inside
  split
  · next same =>
    rw [same] at before
    exact before.append e
  · exact before

/-- A signal that is new has a number that no other signal of its key has. -/
theorem Faithful.pairwise_cons (h : j.Faithful) (k : Key) (b : Bounds) (d : Direction) :
    (j.next k b d :: j.sent).Pairwise Sent.Apart := by
  refine List.pairwise_cons.2 ⟨fun y inside same => ?_, h.distinct⟩
  have older := (h.justified y inside).origin_lt
  rw [← same] at older
  exact (Nat.ne_of_lt older).symm

theorem term?_of_watched {k : Key} {p : Pressure} (watched : j.monitor.registry.find? k = some p) :
    j.term? k = some (j.terms k) :=
  if_pos (Registry.contains_iff.2 ⟨p, watched⟩)

/-- The evaluation of a registered key continues its window, and may complete it. -/
theorem Faithful.building_judge (h : j.Faithful) {k : Key} {p : Pressure}
    (watched : j.monitor.registry.find? k = some p) (t : Option Transition) (b : Bounds)
    (count : UInt32) :
    Building (j.evaluations k ++ [⟨j.term? k, b, count, j.monitor.fired k t b count⟩]) (j.terms k)
        ((Monitor.moved t p).evaluate j.monitor.policy b count).2 ∧
      ∀ d, j.monitor.fired k t b count = some d →
        (j.next k b d).Justified
          (j.evaluations k ++ [⟨j.term? k, b, count, j.monitor.fired k t b count⟩]) := by
  have building := (h.building k p watched).moved t
  rw [term?_of_watched watched, Monitor.fired, watched, Option.bind_some]
  refine ⟨building.evaluate _ _ _, fun d fired => ?_⟩
  rw [fired]
  exact building.justified fired k

theorem Faithful.judge (h : j.Faithful) {worker : Nat} {k : Key} {t : Option Transition}
    {b : Bounds} {count : UInt32} {m : Monitor}
    (leads : (Monitor.Effect.judge worker k t b count).Leads j.monitor m) :
    Faithful { j.judge worker k b count (j.monitor.fired k t b count) with monitor := m } := by
  have moved := sent_judge h.beside worker k b count (j.monitor.fired k t b count)
  refine ⟨?_, fun k' after watched => ?_, fun x inside => ?_, ?_, h.made⟩
  · rw [leads.channel]
    simp only [Monitor.Effect.onChannel, Journal.judge]
    rcases j.monitor.fired k t b count with _ | d
    · exact h.beside
    · exact h.beside.put worker (j.next k b d)
  · rw [leads.find] at watched
    simp only [Monitor.Effect.on] at watched
    simp only [Journal.judge]
    by_cases same : k' = k
    · rw [if_pos same, same] at watched
      obtain ⟨p, before, rfl⟩ := Option.map_eq_some_iff.1 watched
      rw [if_pos same, same]
      exact (h.building_judge before t b count).1
    · rw [if_neg same] at watched ⊢
      exact h.building k' after watched
  · have known := moved.subset inside
    simp only [Journal.judge]
    rcases fired : j.monitor.fired k t b count with _ | d
    · rw [fired] at known
      exact h.justified_concat k _ known
    · rw [fired] at known
      rcases List.mem_cons.1 known with rfl | old
      · obtain ⟨p, before, -⟩ := Option.bind_eq_some_iff.1 fired
        have new := (h.building_judge before t b count).2 d fired
        rw [fired] at new
        rw [if_pos (show (j.next k b d).signal.key = k from rfl)]
        exact new
      · exact h.justified_concat k _ old
  · rcases fired : j.monitor.fired k t b count with _ | d
    · rw [fired] at moved
      exact Sent.pairwise_apart_of_subperm h.distinct moved
    · rw [fired] at moved
      exact Sent.pairwise_apart_of_subperm (h.pairwise_cons k b d) moved

theorem Faithful.step (h : j.Faithful) (op : Monitor.Op) : (j.step op).Faithful := by
  have leads := Monitor.leads_step op j.monitor
  rw [Journal.step, note]
  cases effect : j.monitor.effect op with
  | idle => exact h.idle (effect ▸ leads)
  | watch k => exact h.watch (effect ▸ leads)
  | forget k => exact h.forget (effect ▸ leads)
  | release k => exact h.release (effect ▸ leads)
  | move k t => exact h.move (effect ▸ leads)
  | judge worker k t b count =>
    simp only [Monitor.answer_of_judge effect, Monitor.Answer.fired?]
    exact h.judge (effect ▸ leads)
  | take limit => exact h.take (effect ▸ leads)
  | close => exact h.close (effect ▸ leads)

end Step

theorem Faithful.run {j : Journal} (h : j.Faithful) (ops : List Monitor.Op) :
    (j.run ops).Faithful := by
  induction ops generalizing j with
  | nil => exact h
  | cons op ops ih => exact ih (h.step op)

theorem Faithful.receipts_step {j : Journal} (h : j.Faithful) (op : Monitor.Op) :
    (j.step op).receipts.map (·.sent.signal) =
      j.receipts.map (·.sent.signal) ++ (j.monitor.step op).1.signals := by
  rw [Monitor.signals_step]
  show (j.note op).receipts.map _ = _
  rw [note]
  cases j.monitor.effect op with
  | take limit =>
    have taken := congrArg (List.map (·.signal)) (map_receipts_take limit j)
    rw [List.map_map, List.map_append, List.map_map, (h.beside.takeUpTo limit).1] at taken
    exact taken
  | idle => exact (List.append_nil _).symm
  | watch k => exact (List.append_nil _).symm
  | forget k => exact (List.append_nil _).symm
  | release k => exact (List.append_nil _).symm
  | move k t => exact (List.append_nil _).symm
  | judge worker k t b count => exact (List.append_nil _).symm
  | close => exact (List.append_nil _).symm

/-- The receipts are the signals that come out of the monitor. -/
theorem Faithful.receipts_run {j : Journal} (h : j.Faithful) (ops : List Monitor.Op) :
    (j.run ops).receipts.map (·.sent.signal) =
      j.receipts.map (·.sent.signal) ++
        (Monitor.run ops j.monitor).1.flatMap Monitor.Answer.signals := by
  induction ops generalizing j with
  | nil => exact (List.append_nil _).symm
  | cons op ops ih =>
    refine (ih (h.step op)).trans ?_
    rw [h.receipts_step, List.append_assoc]
    rfl

/-- Every signal that is received in a run of a monitor was sent by an evaluation of its key that
was made before, when the key was registered.  As many evaluations as the signal says, up to this
one, fell into the same registration and were out of band, and only this one fired, for less if its
count was at the lower limit or below.  No evaluation stands behind two signals. -/
theorem received_signals_justified (settings : Monitor.Settings) (ops : List Monitor.Op) :
    let j := (new settings).run ops
    j.monitor = (Monitor.run ops (.new settings)).2 ∧
      j.receipts.map (·.sent.signal) =
        (Monitor.run ops (.new settings)).1.flatMap Monitor.Answer.signals ∧
      (∀ r ∈ j.receipts, r.sent.origin < r.made ∧
        r.sent.Justified (j.evaluations r.sent.signal.key)) ∧
      j.receipts.Pairwise fun r r' =>
        r.sent.signal.key = r'.sent.signal.key → Disjoint r.sent.window r'.sent.window := by
  intro j
  have faithful : j.Faithful := (faithful_new settings).run ops
  have justified : ∀ r ∈ j.receipts, r.sent.Justified (j.evaluations r.sent.signal.key) :=
    fun r inside =>
      faithful.justified r.sent (List.mem_append_left _ (List.mem_map.2 ⟨r, inside, rfl⟩))
  refine ⟨monitor_run ops _, (faithful_new settings).receipts_run ops,
    fun r inside => ⟨faithful.made r inside, justified r inside⟩, ?_⟩
  -- Of the signals that are on their way nothing is claimed.
  have apart : j.receipts.Pairwise fun r r' => r.sent.Apart r'.sent :=
    List.pairwise_map.1 (List.pairwise_append.1 faithful.distinct).1
  refine apart.imp_of_mem fun {r r'} first second ne same => ?_
  have justified' := justified r' second
  rw [← same] at justified'
  exact (justified r first).disjoint justified' (ne same)

/-- The second of two evaluations completes a window of two. -/
example :
    ((new ⟨.latched, 16, 1, 8⟩).run [.register (.port 1), .evaluate 0 (.port 1) ⟨2, 10, 2⟩ 0,
      .evaluate 0 (.port 1) ⟨2, 10, 2⟩ 1, .tryRecv]).receipts.map (·.sent) =
        [⟨⟨.port 1, .scaleDown, some 2⟩, 1⟩] := by
  decide +kernel

end Journal

end ScaleWatch
