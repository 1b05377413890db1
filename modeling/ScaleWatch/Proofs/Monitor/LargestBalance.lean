import ScaleWatch.Proofs.Monitor.Changeover
import ScaleWatch.Proofs.Monitor.LiveCount
import ScaleWatch.Proofs.Monitor.Separation

/-!
# The count of a key in closed form

A key is handed its transitions one by one, some to be counted only and some to be judged, too, and
many other things are done to the monitor in between.  The count depends on the transitions alone:
it is the largest balance that any of their suffixes has, the empty one included
(`count_eq_largest_balance`).

An operation either hands a transition to the key, which moves the count by it (`count_of_handed`),
or leaves the count alone (`spares_of_not_handed`).
-/

namespace ScaleWatch.Monitor

open Pressure (walk balance)

/-- The transition that an operation hands to a key, as a call or as an event. -/
def Op.transitionOf? (k : Key) : Op → Option Transition
  | apply k' t => if k' = k then some t else none
  | op => op.event?.bind fun (_, k', t) => if k' = k then some t else none

/-- The transitions that a key is handed, in order. -/
def transitionsOf (k : Key) (ops : List Op) : List Transition :=
  ops.filterMap (Op.transitionOf? k)

/-- Bounds are active whenever an event of the key is handled. -/
def Configured (k : Key) (ops : List Op) (m : Monitor) : Prop :=
  ∀ before op later worker t, ops = before ++ op :: later → op.event? = some (worker, k, t) →
    (run before m).2.thresholds.active?.isSome

section Step

variable {k : Key} {op : Op} {t : Transition} {m : Monitor} {p : Pressure}

theorem event_of_handed (handed : op.transitionOf? k = some t) :
    op = .apply k t ∨ ∃ worker, op.event? = some (worker, k, t) := by
  have ofEvent : (op.event?.bind fun (_, k', t) => if k' = k then some t else none) = some t →
      ∃ worker, op.event? = some (worker, k, t) := by
    intro found
    obtain ⟨⟨worker, k', t'⟩, event, same⟩ := Option.bind_eq_some_iff.1 found
    simp only [Option.ite_none_right_eq_some, Option.some_inj] at same
    obtain ⟨rfl, rfl⟩ := same
    exact ⟨worker, event⟩
  cases op with
  | apply k' t' =>
    simp only [Op.transitionOf?, Option.ite_none_right_eq_some, Option.some_inj] at handed
    obtain ⟨rfl, rfl⟩ := handed
    exact .inl rfl
  | _ => exact .inr (ofEvent handed)

/-- An operation that hands a transition to the key moves the count by it. -/
theorem count_of_handed (handed : op.transitionOf? k = some t)
    (watched : m.registry.find? k = some p)
    (active : ∀ worker, op.event? = some (worker, k, t) → m.thresholds.active?.isSome) :
    ∃ after, (m.step op).2.registry.find? k = some after ∧ after.count = (p.apply t).count := by
  rcases event_of_handed handed with rfl | ⟨worker, event⟩
  · refine ⟨p.apply t, ?_, rfl⟩
    rw [(leads_step _ m).find, watched]
    exact if_pos rfl
  · obtain ⟨b, inForce⟩ := Option.isSome_iff_exists.1 (active worker event)
    obtain ⟨-, -, found⟩ := judges_of_active event watched inForce
    exact ⟨_, found, count_evaluate _ _ _ _⟩

/-- Any other operation leaves the count alone, unless it unregisters the key. -/
theorem spares_of_not_handed (idle : op.transitionOf? k = none) (kept : op ≠ .unregister k)
    (watched : m.registry.find? k = some p) : (m.effect op).Spares k := by
  by_cases spares : op.Spares k
  · exact spares.effect watched
  cases op with
  | unregister k' =>
    have same : k' = k := not_not.1 spares
    exact absurd (congrArg Op.unregister same) kept
  | apply k' t =>
    have same : k' = k := not_not.1 spares
    simp [Op.transitionOf?, same] at idle
  | transition worker k' t =>
    have same : k' = k := not_not.1 spares
    simp [Op.transitionOf?, Op.event?, same] at idle
  | observe worker o =>
    have same : o.key = k := not_not.1 spares
    simp only [effect]
    rcases seen : o.transition? with _ | ⟨k', t⟩
    · trivial
    · have own : k' = o.key := by
        obtain ⟨t', -, made⟩ := Option.map_eq_some_iff.1 seen
        cases made
        rfl
      simp [Op.transitionOf?, Op.event?, seen, own, same] at idle
  | _ => exact absurd trivial spares

end Step

section Run

variable {k : Key} {m : Monitor} {ops : List Op}

theorem transitionsOf_concat (k : Key) (ops : List Op) (op : Op) :
    transitionsOf k (ops ++ [op]) = transitionsOf k ops ++ (op.transitionOf? k).toList := by
  rw [transitionsOf, List.filterMap_append]
  rfl

theorem Configured.of_append {later : List Op} (h : Configured k (ops ++ later) m) :
    Configured k ops m :=
  fun before op rest worker t split =>
    h before op (rest ++ later) worker t (by rw [split, List.append_assoc, List.cons_append])

theorem Configured.last {op : Op} (h : Configured k (ops ++ [op]) m) {worker : Nat}
    {t : Transition} (event : op.event? = some (worker, k, t)) :
    (run ops m).2.thresholds.active?.isSome :=
  h ops op [] worker t rfl event

/-- After the operations the count is what the walk with a floor has reached. -/
theorem count_run (fresh : m.registry.find? k = some .zero) (kept : .unregister k ∉ ops)
    (active : Configured k ops m) (few : (transitionsOf k ops).count .established < UInt32.size) :
    ∃ p, (run ops m).2.registry.find? k = some p ∧
      p.count.toNat = walk (transitionsOf k ops) := by
  -- From the end, since what is supposed holds of every beginning of the operations.
  induction ops using List.reverseRecOn with
  | nil => exact ⟨.zero, fresh, rfl⟩
  | append_singleton ops op ih =>
    rw [List.mem_append, List.mem_singleton, not_or] at kept
    rw [transitionsOf_concat] at few ⊢
    have fewer := few
    rw [List.count_append] at fewer
    obtain ⟨p, watched, same⟩ := ih kept.1 active.of_append (by omega)
    rw [run_concat]
    rcases handed : op.transitionOf? k with _ | t
    · obtain ⟨after, still, count⟩ :=
        (spares_of_not_handed handed (Ne.symm kept.2) watched).on (run ops m).2.policy p
      refine ⟨after, ?_, ?_⟩
      · rw [(leads_step op _).find, watched]
        exact still
      · rw [count, same, Option.toList_none, List.append_nil]
    · obtain ⟨after, still, count⟩ := count_of_handed handed watched fun _ => active.last
      refine ⟨after, still, ?_⟩
      rw [handed] at few
      rw [count]
      exact Pressure.toNat_count_apply t same
        (Nat.lt_of_le_of_lt (Pressure.walk_le_count _) few)

end Run

/-- An applied transition is answered with the count that is then stored. -/
theorem apply_stored {k : Key} {m : Monitor} {p : Pressure}
    (watched : m.registry.find? k = some p) (t : Transition) :
    (m.step (.apply k t)).1 = .count (some (p.apply t).count) ∧
      (m.step (.apply k t)).2.stats? k = some (k, p.apply t) := by
  rw [answer_apply, stats?, Registry.stats?, (leads_step _ m).find, watched]
  exact ⟨rfl, congrArg (Option.map (k, ·)) (if_pos rfl)⟩

/-- Let a key be registered, and let transitions be handed to it, applied or handled as events while
bounds are active, with any operations in between but its own unregistration.  If the connections
opened are no more than can be counted, the count is the largest balance of a suffix of the
transitions.  Every apply is answered with the count that it stores. -/
theorem count_eq_largest_balance {k : Key} {m : Monitor} {ops : List Op}
    (registered : (m.step (.register k)).1 = .flag true) (kept : .unregister k ∉ ops)
    (active : Configured k ops (m.step (.register k)).2)
    (few : (transitionsOf k ops).count .established < UInt32.size) :
    let fresh := (m.step (.register k)).2
    (∃ p, (run ops fresh).2.stats? k = some (k, p) ∧
      IsGreatest {n : Int | ∃ since, since <:+ transitionsOf k ops ∧ n = balance since}
        p.count.toNat) ∧
    ∀ before t later, ops = before ++ .apply k t :: later →
      ∃ p, ((run before fresh).2.step (.apply k t)).1 = .count (some p.count) ∧
        ((run before fresh).2.step (.apply k t)).2.stats? k = some (k, p) := by
  intro fresh
  have zero : fresh.registry.find? k = some .zero := find?_of_register registered
  constructor
  · obtain ⟨p, watched, count⟩ := count_run zero kept active few
    refine ⟨p, by rw [stats?, Registry.stats?, watched, Option.map_some], ?_⟩
    rw [count]
    exact Pressure.isGreatest_walk _
  · rintro before t later rfl
    have earlier : before.Sublist (before ++ .apply k t :: later) := List.sublist_append_left _ _
    have fewer : (transitionsOf k before).count .established < UInt32.size :=
      Nat.lt_of_le_of_lt ((earlier.filterMap _).count_le _) few
    obtain ⟨p, watched, -⟩ :=
      count_run zero (fun inside => kept (earlier.subset inside)) active.of_append fewer
    exact ⟨_, apply_stored watched t⟩

/-- A monitor with bounds that watches nothing yet. -/
def unattended : Monitor :=
  (run [.store ⟨2, 10, 3⟩] (new ⟨.latched, 16, 1, 8⟩)).2

/-- A close that is forgotten, transitions that are applied and others that are handled as events,
and in between bounds that are not active, another key, judgements and a release of the gate. -/
def handedAlong : List Op :=
  [.transition 0 (.port 1) .closed, .writeSlot 1 1, .apply (.port 1) .established, .writeSlot 1 8,
    .register (.port 2), .observe 1 (.tracepoint 1 1), .apply (.port 2) .established,
    .evaluate 0 (.port 1) ⟨2, 10, 1⟩ 0, .clearGate (.port 1), .apply (.port 1) .closed]

theorem count_eq_largest_balance_handedAlong :
    (unattended.step (.register (.port 1))).1 = .flag true ∧
      .unregister (.port 1) ∉ handedAlong ∧
      Configured (.port 1) handedAlong (unattended.step (.register (.port 1))).2 ∧
      transitionsOf (.port 1) handedAlong = [.closed, .established, .established, .closed] ∧
      (run handedAlong (unattended.step (.register (.port 1))).2).2.stats? (.port 1) =
        some (.port 1, ⟨1, 0, false⟩) ∧
      IsGreatest {n : Int | ∃ since, since <:+ transitionsOf (.port 1) handedAlong ∧
        n = balance since} 1 := by
  have registered : (unattended.step (.register (.port 1))).1 = .flag true := by decide +kernel
  have kept : .unregister (.port 1) ∉ handedAlong := by simp [handedAlong]
  have inForce : ∀ i < handedAlong.length,
      (handedAlong[i]?.bind Op.event?).any (·.2.1 = .port 1) →
        (run (handedAlong.take i)
          (unattended.step (.register (.port 1))).2).2.thresholds.active?.isSome := by
    decide +kernel
  have active : Configured (.port 1) handedAlong (unattended.step (.register (.port 1))).2 := by
    intro before op later worker t split event
    have now := inForce before.length (by simp [split]) (by simp [split, event])
    rwa [split, List.take_left] at now
  have handed : transitionsOf (.port 1) handedAlong =
      [.closed, .established, .established, .closed] := by decide +kernel
  obtain ⟨⟨p, watched, greatest⟩, -⟩ := count_eq_largest_balance registered kept active
    (by rw [handed]; decide)
  have stats : (run handedAlong (unattended.step (.register (.port 1))).2).2.stats? (.port 1) =
      some (.port 1, ⟨1, 0, false⟩) := by decide +kernel
  rw [stats] at watched
  cases watched
  exact ⟨registered, kept, active, handed, stats, greatest⟩

end ScaleWatch.Monitor
