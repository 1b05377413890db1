import Mathlib.Algebra.BigOperators.Ring.Finset
import Mathlib.Algebra.Order.BigOperators.Group.Finset
import Mathlib.Algebra.Order.Ring.Int
import ScaleWatch.Proofs.Monitor.Effect
import ScaleWatch.Proofs.Tcp.Life

/-!
# When the count of a key is its number of live connections

The reports of many connections of a key come in any order, and the count sees none of the
connections, only what is opened and what is closed.  A connection that its peer closes is counted
down twice, in CLOSE_WAIT and in CLOSE.  At a moment at which no connection is in the middle of
being closed, the count is therefore at most the number of connections in ESTABLISHED, and
`count_eq_live_iff` says exactly when it is that number: some moment must have passed at which
every connection was closed, among them all that were ever closed by their peers.
-/

namespace ScaleWatch.Monitor

open Pressure (walk balance)
open Tcp (State IsLife Settled transitions passive live)

/-! ### Reports of connections -/

/-- What is done to a monitor while the connections of a key are observed: a connection is reported
to have entered a state, or there is any other operation. -/
inductive Item (α : Type) where
  | report (worker : Nat) (connection : α) (state : State)
  | other (op : Op)

variable {α : Type}

/-- The operation on the monitor, when the connections are those of `k`. -/
def Item.op (k : Key) : Item α → Op
  | report worker _ state => .observe worker (.event ⟨k, state.code⟩)
  | other op => op

def Item.state? : Item α → Option State
  | report _ _ state => some state
  | other _ => none

/-- The states reported, of all connections together. -/
def reported (items : List (Item α)) : List State :=
  items.filterMap Item.state?

/-- An operation that leaves the registration and the count of a key to others. -/
def Op.Spares (k : Key) : Op → Prop
  | .unregister k' | .apply k' _ | .transition _ k' _ => k' ≠ k
  | .observe _ o => o.key ≠ k
  | _ => True

instance (k : Key) : DecidablePred (Op.Spares k)
  | .unregister _ | .apply _ _ | .transition _ _ _ | .observe _ _ => instDecidableNot
  | .store _ | .writeSlot _ _ | .register _ | .clearGate _ | .stats _ | .evaluate _ _ _ _
  | .tryRecv | .poll | .drain | .dropStream => isTrue trivial

/-- The monitor after a list of items. -/
def observed (k : Key) (items : List (Item α)) (m : Monitor) : Monitor :=
  (run (items.map (Item.op k)) m).2

theorem observed_concat (k : Key) (items : List (Item α)) (item : Item α) (m : Monitor) :
    observed k (items ++ [item]) m = ((observed k items m).step (item.op k)).2 := by
  rw [observed, List.map_append]
  exact run_concat _ _ m

section Connections

variable [DecidableEq α]

def Item.stateOf? (c : α) : Item α → Option State
  | report _ c' state => if c' = c then some state else none
  | other _ => none

/-- The states that one connection has entered. -/
def entered (c : α) (items : List (Item α)) : List State :=
  items.filterMap (Item.stateOf? c)

/-- The reports are of these connections. -/
def AllOf (connections : Finset α) (items : List (Item α)) : Prop :=
  ∀ worker c state, .report worker c state ∈ items → c ∈ connections

/-- What adds up over the states of each connection adds up over all states, in whatever order the
connections take turns. -/
theorem sum_entered {β : Type} [AddCommMonoid β] {f : List State → β} (nil : f [] = 0)
    (append : ∀ first second, f (first ++ second) = f first + f second) {items : List (Item α)}
    {connections : Finset α} (known : AllOf connections items) :
    ∑ c ∈ connections, f (entered c items) = f (reported items) := by
  induction items with
  | nil => simp [entered, reported, nil]
  | cons item rest ih =>
    have tail := ih fun worker c state inside =>
      known worker c state (List.mem_cons_of_mem _ inside)
    cases item with
    | other op => exact tail
    | report worker c state =>
      have split : ∀ c', f (entered c' (.report worker c state :: rest)) =
          (if c = c' then f [state] else 0) + f (entered c' rest) := by
        intro c'
        by_cases same : c = c'
        · rw [if_pos same, ← append]
          simp [entered, Item.stateOf?, same]
        · rw [if_neg same, zero_add]
          simp [entered, Item.stateOf?, same]
      rw [Finset.sum_congr rfl fun c' _ => split c', Finset.sum_add_distrib, tail,
        Finset.sum_ite_eq, if_pos (known worker c state (by simp)), ← append]
      rfl

theorem entered_eq_nil {items : List (Item α)} {connections : Finset α}
    (known : AllOf connections items) {c : α} (other : c ∉ connections) : entered c items = [] := by
  refine List.filterMap_eq_nil_iff.2 fun item inside => ?_
  cases item with
  | other op => rfl
  | report worker c' state =>
    refine if_neg fun same => other ?_
    rw [← same]
    exact known worker c' state inside

theorem isPrefix_entered (c : α) {earlier items : List (Item α)} (before : earlier <+: items) :
    entered c earlier <+: entered c items :=
  before.filterMap (Item.stateOf? c)

end Connections

/-! ### The count along the reports -/

theorem count_evaluate (policy : GatePolicy) (b : Bounds) (count : UInt32) (p : Pressure) :
    (p.evaluate policy b count).2.count = p.count := by
  unfold Pressure.evaluate
  split_ifs <;> rfl

/-- A report moves the count by the transition that its state stands for. -/
theorem count_report {k : Key} {m : Monitor} {p : Pressure}
    (watched : m.registry.find? k = some p) (active : m.thresholds.active?.isSome) (worker : Nat)
    (state : State) :
    ∃ after, (m.step (.observe worker (.event ⟨k, state.code⟩))).2.registry.find? k = some after ∧
      after.count = (moved state.transition? p).count := by
  obtain ⟨b, hb⟩ := Option.isSome_iff_exists.1 active
  rw [(leads_step _ m).find, watched, effect, Observation.transition?, Observation.state,
    Tcp.classify_code]
  rcases state.transition? with _ | t
  · exact ⟨p, rfl, rfl⟩
  · simp only [Option.map_some, Observation.key, effectOfTransition, watched, hb, Effect.on,
      if_true]
    exact ⟨_, rfl, count_evaluate _ _ _ _⟩

/-- An effect that leaves the registration and the count of a key as they are. -/
def Effect.Spares (k : Key) : Effect → Prop
  | watch k' | forget k' | move k' _ | judge _ k' (some _) _ _ => k' ≠ k
  | _ => True

theorem Effect.Spares.on {k : Key} {e : Effect} (spares : e.Spares k) (policy : GatePolicy)
    (p : Pressure) : ∃ after, e.on policy k (some p) = some after ∧ after.count = p.count := by
  cases e with
  | idle => exact ⟨p, rfl, rfl⟩
  | watch k' => exact ⟨p, if_neg (Ne.symm spares), rfl⟩
  | forget k' => exact ⟨p, if_neg (Ne.symm spares), rfl⟩
  | move k' t => exact ⟨p, if_neg (Ne.symm spares), rfl⟩
  | take limit => exact ⟨p, rfl, rfl⟩
  | close => exact ⟨p, rfl, rfl⟩
  | release k' =>
    by_cases same : k = k'
    · exact ⟨p.clearGate.2, if_pos same, rfl⟩
    · exact ⟨p, if_neg same, rfl⟩
  | judge worker k' t b count =>
    by_cases same : k = k'
    · cases t with
      | none => exact ⟨_, if_pos same, count_evaluate policy b count p⟩
      | some t => exact absurd same.symm spares
    · exact ⟨p, if_neg same, rfl⟩

theorem spares_effectOfTransition {k k' : Key} (other : k' ≠ k) (worker : Nat) (t : Transition)
    (m : Monitor) : (m.effectOfTransition worker k' t).Spares k := by
  unfold effectOfTransition
  split
  · exact other
  · trivial

/-- Registering a key that is watched already spares it, too. -/
theorem Op.Spares.effect {k : Key} {op : Op} (spares : op.Spares k) {m : Monitor} {p : Pressure}
    (watched : m.registry.find? k = some p) : (m.effect op).Spares k := by
  cases op with
  | register k' =>
    simp only [Monitor.effect]
    split
    · trivial
    · next absent =>
      rintro rfl
      exact absent (.inl (Registry.contains_iff.2 ⟨p, watched⟩))
  | unregister k' => exact spares
  | apply k' t => exact spares
  | transition worker k' t => exact spares_effectOfTransition spares worker t m
  | observe worker o =>
    simp only [Monitor.effect, Observation.transition?]
    rcases Tcp.classify o.state with _ | t
    · trivial
    · exact spares_effectOfTransition spares worker t m
  | tryRecv => simp only [Monitor.effect]; split <;> trivial
  | poll => simp only [Monitor.effect]; split <;> trivial
  | drain => simp only [Monitor.effect]; split <;> trivial
  | store b => trivial
  | writeSlot index value => trivial
  | clearGate k' => trivial
  | stats k' => trivial
  | evaluate worker k' b count => trivial
  | dropStream => trivial

section Run

variable {k : Key} {m : Monitor} {items : List (Item α)}

/-- After the reports the count is what the walk with a floor has reached. -/
theorem count_observed (fresh : m.registry.find? k = some .zero)
    (spared : ∀ op, .other op ∈ items → op.Spares k)
    (consistent : ∀ earlier, earlier <+: items → (observed k earlier m).thresholds.active?.isSome)
    (few : (transitions (reported items)).count .established < UInt32.size) :
    ∃ p, (observed k items m).registry.find? k = some p ∧
      p.count.toNat = walk (transitions (reported items)) := by
  -- From the end, since bounds are active and the key is watched at every beginning of the items.
  induction items using List.reverseRecOn with
  | nil => exact ⟨.zero, fresh, rfl⟩
  | append_singleton items item ih =>
    have shorter : items <+: items ++ [item] := List.prefix_append _ _
    have split : transitions (reported (items ++ [item])) =
        transitions (reported items) ++ transitions (reported [item]) := by
      simp [reported, transitions]
    obtain ⟨p, watched, same⟩ := ih (fun op inside => spared op (List.mem_append_left _ inside))
      (fun earlier before => consistent earlier (before.trans shorter))
      (by rw [split, List.count_append] at few; omega)
    rw [observed_concat, split]
    cases item with
    | other op =>
      obtain ⟨after, still, count⟩ :=
        Effect.Spares.on ((spared op (by simp)).effect watched) (observed k items m).policy p
      refine ⟨after, ?_, ?_⟩
      · rw [(leads_step _ _).find, watched]
        exact still
      · rw [count, same, show transitions (reported [(Item.other op : Item α)]) = [] from rfl,
          List.append_nil]
    | report worker c state =>
      obtain ⟨after, still, count⟩ := count_report watched (consistent items shorter) worker state
      refine ⟨after, still, ?_⟩
      rw [count]
      cases made : state.transition? with
      | none =>
        rw [show transitions (reported [Item.report worker c state]) = [] by
          simp [reported, Item.state?, transitions, made], List.append_nil]
        exact same
      | some t =>
        rw [show transitions (reported [Item.report worker c state]) = [t] by
          simp [reported, Item.state?, transitions, made]] at split ⊢
        refine Pressure.toNat_count_apply t same ?_
        rw [split] at few
        exact Nat.lt_of_le_of_lt (Pressure.walk_le_count _) few

end Run

/-! ### The count and the connections -/

/-- A beginning of the transitions is what a beginning of the items has reported. -/
theorem prefix_transitions_iff {items : List (Item α)} {ts : List Transition} :
    ts <+: transitions (reported items) ↔
      ∃ earlier, earlier <+: items ∧ ts = transitions (reported earlier) := by
  unfold transitions reported
  constructor
  · intro h
    obtain ⟨states, begins, rfl⟩ := List.prefix_filterMap_iff.1 h
    obtain ⟨earlier, before, rfl⟩ := List.prefix_filterMap_iff.1 begins
    exact ⟨earlier, before, rfl⟩
  · rintro ⟨earlier, before, rfl⟩
    exact (before.filterMap _).filterMap _

section Connections

variable [DecidableEq α] {items : List (Item α)} {connections : Finset α}

theorem balance_reported (known : AllOf connections items) :
    ∑ c ∈ connections, balance (transitions (entered c items)) =
      balance (transitions (reported items)) :=
  sum_entered (f := fun states => balance (transitions states)) rfl
    (fun first second => by
      rw [transitions, List.filterMap_append, Pressure.balance_append]
      rfl) known

theorem count_established_reported (known : AllOf connections items)
    (lives : ∀ c, IsLife (entered c items)) :
    (transitions (reported items)).count .established ≤ connections.card := by
  have total := sum_entered (f := fun states => (transitions states).count .established) rfl
    (fun first second => by
      rw [transitions, List.filterMap_append, List.count_append]
      rfl) known
  rw [← total]
  calc ∑ c ∈ connections, (transitions (entered c items)).count .established
      ≤ ∑ _c ∈ connections, 1 := Finset.sum_le_sum fun c _ => (lives c).count_established_le
    _ = connections.card := by simp

/-- The connections that are in ESTABLISHED. -/
def established (connections : Finset α) (items : List (Item α)) : Finset α :=
  connections.filter fun c => (entered c items).getLast? = some .established

theorem sum_live :
    ∑ c ∈ connections, live (entered c items) = (established connections items).card := by
  unfold live established
  rw [Finset.sum_boole]

theorem balance_of_settled (known : AllOf connections items)
    (lives : ∀ c, IsLife (entered c items)) (settled : ∀ c, Settled (entered c items)) :
    balance (transitions (reported items)) =
      (established connections items).card - ∑ c ∈ connections, passive (entered c items) := by
  rw [← balance_reported known, ← sum_live, ← Finset.sum_sub_distrib]
  exact Finset.sum_congr rfl fun c _ => (lives c).balance_of_settled (settled c)

/-- The balance was never lower than what the connections closed by their peers take from it, and
it was there when all these were closed and no other was open. -/
theorem le_balance_reported (known : AllOf connections items)
    (lives : ∀ c, IsLife (entered c items)) {earlier : List (Item α)} (before : earlier <+: items) :
    -∑ c ∈ connections, passive (entered c items) ≤ balance (transitions (reported earlier)) ∧
      (balance (transitions (reported earlier)) = -∑ c ∈ connections, passive (entered c items) ↔
        (∀ c, .established ∈ entered c earlier → .close ∈ entered c earlier) ∧
          ∀ c, .closeWait ∈ entered c items → .close ∈ entered c earlier) := by
  have knownBefore : AllOf connections earlier := fun worker c state inside =>
    known worker c state (before.subset inside)
  have each := fun c => (lives c).le_balance (isPrefix_entered c before)
  rw [← balance_reported knownBefore, ← Finset.sum_neg_distrib]
  refine ⟨Finset.sum_le_sum fun c _ => (each c).1, ?_⟩
  rw [eq_comm, Finset.sum_eq_sum_iff_of_le fun c _ => (each c).1, ← forall_and]
  refine forall_congr' fun c => ?_
  by_cases inside : c ∈ connections
  · rw [imp_iff_right inside, eq_comm]
    exact (each c).2
  · rw [entered_eq_nil known inside, entered_eq_nil knownBefore inside]
    simp [inside]

/-- Let connections of a freshly registered key be reported while bounds are active, in any order
and among any operations that leave the key alone, and let none of them be in the middle of being
closed.  Then the count is at most the number of connections in ESTABLISHED.  It is that number
exactly if at some moment no connection was open, and no connection that its peer closed was closed
after that moment. -/
theorem count_eq_live_iff {k : Key} {m : Monitor} (fresh : m.stats? k = some (k, .zero))
    (few : connections.card < UInt32.size) (known : AllOf connections items)
    (lives : ∀ c, IsLife (entered c items)) (settled : ∀ c, Settled (entered c items))
    (spared : ∀ op, .other op ∈ items → op.Spares k)
    (consistent :
      ∀ earlier, earlier <+: items → (observed k earlier m).thresholds.active?.isSome) :
    ∃ p, (observed k items m).stats? k = some (k, p) ∧
      p.count.toNat ≤ (established connections items).card ∧
      (p.count.toNat = (established connections items).card ↔
        ∃ earlier, earlier <+: items ∧
          (∀ c, .established ∈ entered c earlier → .close ∈ entered c earlier) ∧
          ∀ c, .closeWait ∈ entered c items → .close ∈ entered c earlier) := by
  have zero : m.registry.find? k = some .zero := by
    obtain ⟨p, hp, same⟩ := Option.map_eq_some_iff.1 fresh
    cases same
    exact hp
  obtain ⟨p, watched, count⟩ := count_observed zero spared consistent
    (Nat.lt_of_le_of_lt (count_established_reported known lives) few)
  refine ⟨p, by rw [stats?, Registry.stats?, watched, Option.map_some], ?_⟩
  have bounded : ∀ ts, ts <+: transitions (reported items) →
      -∑ c ∈ connections, passive (entered c items) ≤ balance ts := by
    intro ts begins
    obtain ⟨earlier, before, rfl⟩ := prefix_transitions_iff.1 begins
    exact (le_balance_reported known lives before).1
  obtain ⟨atMost, full⟩ := Pressure.walk_eq_iff bounded
  rw [balance_of_settled known lives settled, sub_add_cancel, ← count] at atMost full
  refine ⟨Int.ofNat_le.1 atMost, ?_⟩
  rw [← Int.ofNat_inj]
  refine full.trans ⟨?_, ?_⟩
  · rintro ⟨ts, begins, lowest⟩
    obtain ⟨earlier, before, rfl⟩ := prefix_transitions_iff.1 begins
    exact ⟨earlier, before, (le_balance_reported known lives before).2.1 lowest⟩
  · rintro ⟨earlier, before, closed⟩
    exact ⟨_, prefix_transitions_iff.2 ⟨earlier, before, rfl⟩,
      (le_balance_reported known lives before).2.2 closed⟩

end Connections

/-- A monitor that has begun to watch a key. -/
def watching (k : Key) : Monitor :=
  (run [.store ⟨2, 10, 3⟩, .register k] (.new ⟨.latched, 16, 1, 8⟩)).2

/-- One connection is closed by its peer, and another is opened after that. -/
def closedFirst : List (Item Bool) :=
  [.report 0 false .established, .report 0 false .closeWait, .report 0 false .lastAck,
    .report 0 false .close, .other (.store ⟨3, 9, 2⟩), .report 0 true .synRecv,
    .report 0 true .established]

theorem count_eq_live_closedFirst :
    ∃ p, (observed (.port 1) closedFirst (watching (.port 1))).stats? (.port 1) =
      some (.port 1, p) ∧ p.count.toNat = (established .univ closedFirst).card := by
  have consistent : ∀ earlier ∈ closedFirst.inits,
      (observed (.port 1) earlier (watching (.port 1))).thresholds.active?.isSome := by
    decide +kernel
  have lives : ∀ c, IsLife (entered c closedFirst) := by
    intro c
    cases c with
    | false => exact ⟨[], [.closeWait, .lastAck, .close], by decide, by decide, by decide⟩
    | true => exact ⟨[.synRecv], [.close], by decide, by decide, by decide⟩
  have settled : ∀ c, Settled (entered c closedFirst) := by
    unfold Settled
    decide
  have spared : ∀ op, .other op ∈ closedFirst → op.Spares (.port 1) := by
    intro op inside
    simp only [closedFirst, List.mem_cons, reduceCtorEq, Item.other.injEq, List.not_mem_nil,
      false_or, or_false] at inside
    rw [inside]
    trivial
  have fresh : (watching (.port 1)).stats? (.port 1) = some (.port 1, .zero) := by decide +kernel
  have few : (Finset.univ : Finset Bool).card < UInt32.size := by decide
  obtain ⟨p, watched, -, full⟩ := count_eq_live_iff fresh few
    (fun _ c _ _ => Finset.mem_univ c) lives settled spared
    fun earlier before => consistent earlier ((List.mem_inits _ _).2 before)
  refine ⟨p, watched, full.2 ⟨closedFirst.take 4, List.take_prefix _ _, ?_, ?_⟩⟩
  · decide
  · decide

/-- The first of two connections is closed by its peer while the other is open. -/
def closedBeside : List (Item Bool) :=
  [.report 0 false .established, .report 0 true .established, .report 0 false .closeWait,
    .report 0 false .lastAck, .report 0 false .close]

/-- The count need not be the number of connections in ESTABLISHED: here it is 0, with one open. -/
theorem not_count_eq_live :
    ¬∀ (k : Key) (m : Monitor) (items : List (Item Bool)), m.stats? k = some (k, .zero) →
      (∀ c, IsLife (entered c items)) → (∀ c, Settled (entered c items)) →
      (∀ op, .other op ∉ items) →
      (∀ earlier, earlier <+: items → (observed k earlier m).thresholds.active?.isSome) →
        ∃ p, (observed k items m).stats? k = some (k, p) ∧
          p.count.toNat = (established .univ items).card := by
  intro claim
  have lives : ∀ c, IsLife (entered c closedBeside) := by
    intro c
    cases c with
    | false => exact ⟨[], [.closeWait, .lastAck, .close], by decide, by decide, by decide⟩
    | true => exact ⟨[], [.close], by decide, by decide, by decide⟩
  have settled : ∀ c, Settled (entered c closedBeside) := by
    unfold Settled
    decide
  have consistent : ∀ earlier ∈ closedBeside.inits,
      (observed (.port 1) earlier (watching (.port 1))).thresholds.active?.isSome := by
    decide +kernel
  obtain ⟨p, watched, same⟩ := claim (.port 1) (watching (.port 1)) closedBeside (by decide +kernel)
    lives settled (fun op => by simp [closedBeside])
    fun earlier before => consistent earlier ((List.mem_inits _ _).2 before)
  have counted : (observed (.port 1) closedBeside (watching (.port 1))).stats? (.port 1) =
      some (.port 1, ⟨0, 0, true⟩) := by
    decide +kernel
  have live_one : (established .univ closedBeside).card = 1 := by decide
  rw [counted] at watched
  cases watched
  rw [live_one] at same
  cases same

end ScaleWatch.Monitor
