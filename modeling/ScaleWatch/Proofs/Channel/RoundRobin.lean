import Mathlib.Data.List.Pairwise
import ScaleWatch.Proofs.Channel.Traffic

/-!
# The order in which a channel is drained

Draining takes from each slot in turn one signal at a time, passes over slots that are empty, and
moves the cursor with every signal.  The order that comes of it can be said beforehand: first the
first signals of all slots, in the order of the slots behind the cursor, then the second ones, and
so on (`drain_goes_round`).

A place `(i, j)` is the `j`-th signal of slot `i`, counted from 0.  When the head of a slot is taken,
the places of this slot move up by one and the slot goes to the end of the round, and the order of
the places that are left is the same as before (`before_pushed`).  So what carries the proof is one
step (`GoesRound.served`).
-/

namespace ScaleWatch.Channel

/-- How far a slot lies behind the cursor, going round. -/
def behind (c : Channel) (i : Nat) : Int :=
  ((i : Int) - c.cursor) % c.slots.length

/-- The place `p` comes before `q`: it lies further ahead in its slot or, if both lie equally far
ahead, in a slot that is nearer to the cursor. -/
def Before (c : Channel) (p q : Nat × Nat) : Prop :=
  p.2 < q.2 ∨ p.2 = q.2 ∧ c.behind p.1 < c.behind q.1

/-! ### Distances from the cursor -/

section Distance

variable {c : Channel} {i : Nat}

theorem behind_eq (h : i < c.slots.length) :
    c.behind i = if c.cursor ≤ i then (i : Int) - c.cursor else i - c.cursor + c.slots.length := by
  have inside := c.cursor_lt
  unfold behind
  split
  · exact Int.emod_eq_of_lt (by omega) (by omega)
  · rw [← Int.add_emod_right]
    exact Int.emod_eq_of_lt (by omega) (by omega)

theorem behind_slotAt {offset : Nat} (h : offset < c.slots.length) :
    c.behind (c.slotAt offset) = offset := by
  have inside := c.cursor_lt
  rw [behind_eq (c.slotAt_lt offset), slotAt]
  by_cases wraps : c.cursor + offset < c.slots.length
  · rw [Nat.mod_eq_of_lt wraps]
    split <;> omega
  · have once : (c.cursor + offset) % c.slots.length = c.cursor + offset - c.slots.length := by
      rw [Nat.mod_eq_sub_mod (by omega), Nat.mod_eq_of_lt (by omega)]
    rw [once]
    split <;> omega

theorem behind_bounds (c : Channel) (i : Nat) : 0 ≤ c.behind i ∧ c.behind i < c.slots.length := by
  have positive := c.slots_pos
  exact ⟨Int.emod_nonneg _ (by omega), Int.emod_lt_of_pos _ (by omega)⟩

theorem behind_inj {i' : Nat} (h : i < c.slots.length) (h' : i' < c.slots.length)
    (same : c.behind i = c.behind i') : i = i' := by
  have inside := c.cursor_lt
  rw [behind_eq h, behind_eq h'] at same
  split_ifs at same <;> omega

/-- The slot that is served next is the first behind the cursor that holds a signal. -/
theorem queue_of_behind_lt (front : c.front? = some i) {i' : Nat} (inside : i' < c.slots.length)
    (nearer : c.behind i' < c.behind i) : c.queue i' = [] := by
  obtain ⟨offset', here', rfl⟩ := exists_slotAt inside
  obtain ⟨before, offset, later, all, found, passed⟩ := List.findSome?_eq_some_iff.1 front
  rw [Option.ite_none_left_eq_some, Option.some_inj] at found
  obtain ⟨-, rfl⟩ := found
  have member : offset ∈ List.range c.slots.length := by simp [all]
  have here : offset < c.slots.length := List.mem_range.1 member
  rw [behind_slotAt here', behind_slotAt here] at nearer
  -- The offsets are looked at from 0 on, so the smaller one was looked at before.
  have sorted := List.pairwise_lt_range (n := c.slots.length)
  rw [all] at sorted
  have tried : offset' ∈ before := by
    have somewhere : offset' ∈ before ++ offset :: later := all ▸ List.mem_range.2 here'
    rcases List.mem_append.1 somewhere with first | second
    · exact first
    · rcases List.mem_cons.1 second with rfl | second
      · omega
      · have after := (List.pairwise_cons.1 (List.pairwise_append.1 sorted).2.1).1 offset' second
        omega
  simpa using passed offset' tried

theorem behind_served (h : i < c.slots.length) (rest : List Signal) {i' : Nat}
    (h' : i' < c.slots.length) :
    (c.served i rest).behind i' =
      if c.behind i < c.behind i' then c.behind i' - c.behind i - 1
      else c.behind i' - c.behind i - 1 + c.slots.length := by
  have inside := c.cursor_lt
  have length : (c.served i rest).slots.length = c.slots.length := List.length_set
  have cursor : (c.served i rest).cursor = if i + 1 = c.slots.length then 0 else i + 1 := by
    show (i + 1) % c.slots.length = _
    split
    · next last => rw [last, Nat.mod_self]
    · exact Nat.mod_eq_of_lt (by omega)
  rw [behind_eq (length ▸ h'), behind_eq h, behind_eq h', length, cursor]
  split_ifs <;> omega

end Distance

/-! ### One signal -/

/-- Where the places of a slot move when its head is put back. -/
def pushed (i : Nat) (p : Nat × Nat) : Nat × Nat :=
  if p.1 = i then (i, p.2 + 1) else p

/-- The signal at a place. -/
def signalAt? (c : Channel) (p : Nat × Nat) : Option Signal :=
  (c.queue p.1)[p.2]?

/-- These signals are what the places hold, and the places are all there are, in their order. -/
structure GoesRound (c : Channel) (signals : List Signal) (order : List (Nat × Nat)) : Prop where
  signals : signals.map some = order.map c.signalAt?
  mem_iff : ∀ p, p ∈ order ↔ p.2 < (c.queue p.1).length
  sorted : order.Pairwise c.Before

section Served

variable {c : Channel} {i : Nat} {s : Signal} {rest : List Signal}

theorem lt_length_of_place {p : Nat × Nat} (h : p.2 < (c.queue p.1).length) :
    p.1 < c.slots.length := by
  by_contra outside
  rw [queue_of_le (Nat.not_lt.1 outside)] at h
  exact Nat.not_lt_zero _ h

/-- A place of another slot that is left was there before, and its slot lies further behind. -/
theorem behind_lt_of_left (front : c.front? = some i) {p : Nat × Nat}
    (left : p.2 < ((c.served i rest).queue p.1).length) (other : p.1 ≠ i) :
    p.1 < c.slots.length ∧ c.behind i < c.behind p.1 := by
  have served := (front?_spec front).1
  rw [queue_served served, if_neg other] at left
  have inside := lt_length_of_place left
  refine ⟨inside, ?_⟩
  by_contra nearer
  rcases Int.lt_or_eq_of_le (Int.not_lt.1 nearer) with less | same
  · rw [queue_of_behind_lt front inside less] at left
    exact Nat.not_lt_zero _ left
  · exact other (behind_inj inside served same)

/-- The head of the served slot comes before all places that are left. -/
theorem before_pushed_of_head (front : c.front? = some i) {q : Nat × Nat}
    (left : q.2 < ((c.served i rest).queue q.1).length) : c.Before (i, 0) (pushed i q) := by
  unfold pushed
  by_cases own : q.1 = i
  · rw [if_pos own]
    exact .inl (Nat.succ_pos _)
  · rw [if_neg own]
    have further := (behind_lt_of_left front left own).2
    rcases Nat.eq_zero_or_pos q.2 with first | later
    · exact .inr ⟨first.symm, further⟩
    · exact .inl later

/-- Taking the head of a slot keeps the order of the places that are left. -/
theorem before_pushed (front : c.front? = some i) {p q : Nat × Nat}
    (leftP : p.2 < ((c.served i rest).queue p.1).length)
    (leftQ : q.2 < ((c.served i rest).queue q.1).length) (before : (c.served i rest).Before p q) :
    c.Before (pushed i p) (pushed i q) := by
  have served := (front?_spec front).1
  have bound := behind_bounds c i
  unfold Before at before
  unfold Before pushed
  by_cases ownP : p.1 = i <;> by_cases ownQ : q.1 = i
  · rw [if_pos ownP, if_pos ownQ]
    rw [ownP, ownQ] at before
    omega
  · obtain ⟨inside, further⟩ := behind_lt_of_left front leftQ ownQ
    have boundQ := behind_bounds c q.1
    rw [if_pos ownP, if_neg ownQ]
    rw [ownP, behind_served served rest served, behind_served served rest inside, if_pos further,
      if_neg (Int.lt_irrefl _)] at before
    show p.2 + 1 < q.2 ∨ p.2 + 1 = q.2 ∧ c.behind i < c.behind q.1
    omega
  · rw [if_neg ownP, if_pos ownQ]
    show p.2 < q.2 + 1 ∨ _
    omega
  · obtain ⟨insideP, furtherP⟩ := behind_lt_of_left front leftP ownP
    obtain ⟨insideQ, furtherQ⟩ := behind_lt_of_left front leftQ ownQ
    rw [if_neg ownP, if_neg ownQ]
    rw [behind_served served rest insideP, behind_served served rest insideQ, if_pos furtherP,
      if_pos furtherQ] at before
    omega

theorem signalAt?_pushed (held : c.queue i = s :: rest) (inside : i < c.slots.length)
    (p : Nat × Nat) : c.signalAt? (pushed i p) = (c.served i rest).signalAt? p := by
  unfold signalAt? pushed
  rw [queue_served inside]
  by_cases own : p.1 = i
  · rw [if_pos own, if_pos own, held, List.getElem?_cons_succ]
  · rw [if_neg own, if_neg own]

theorem lt_length_pushed_iff (held : c.queue i = s :: rest) (inside : i < c.slots.length)
    (p : Nat × Nat) :
    (pushed i p).2 < (c.queue (pushed i p).1).length ↔
      p.2 < ((c.served i rest).queue p.1).length := by
  unfold pushed
  rw [queue_served inside]
  by_cases own : p.1 = i
  · rw [if_pos own, if_pos own, held, List.length_cons, Nat.succ_lt_succ_iff]
  · rw [if_neg own, if_neg own]

theorem exists_pushed {p : Nat × Nat} (behind : p ≠ (i, 0)) : ∃ q, pushed i q = p := by
  obtain ⟨slot, place⟩ := p
  by_cases own : slot = i
  · subst own
    cases place with
    | zero => exact absurd rfl behind
    | succ place => exact ⟨(slot, place), if_pos rfl⟩
  · exact ⟨(slot, place), if_neg own⟩

/-- The places of a slot are its head and the places that are left when the head is taken. -/
theorem mem_pushed_iff (held : c.queue i = s :: rest) (inside : i < c.slots.length)
    {order : List (Nat × Nat)}
    (left : ∀ p, p ∈ order ↔ p.2 < ((c.served i rest).queue p.1).length) (p : Nat × Nat) :
    p ∈ (i, 0) :: order.map (pushed i) ↔ p.2 < (c.queue p.1).length := by
  constructor
  · intro member
    rcases List.mem_cons.1 member with rfl | member
    · simp [held]
    · obtain ⟨q, here, rfl⟩ := List.mem_map.1 member
      exact (lt_length_pushed_iff held inside q).2 ((left q).1 here)
  · intro here
    by_cases head : p = (i, 0)
    · simp [head]
    · obtain ⟨q, rfl⟩ := exists_pushed head
      have remains := (left q).2 ((lt_length_pushed_iff held inside q).1 here)
      exact List.mem_cons_of_mem _ (List.mem_map_of_mem remains)

/-- If what is left when the head of the next slot is taken goes round, all of it does. -/
theorem GoesRound.served (front : c.front? = some i) (held : c.queue i = s :: rest)
    {signals : List Signal} {order : List (Nat × Nat)}
    (h : (c.served i rest).GoesRound signals order) :
    c.GoesRound (s :: signals) ((i, 0) :: order.map (pushed i)) where
  signals := by
    have first : c.signalAt? (i, 0) = some s := by rw [signalAt?, held]; rfl
    rw [List.map_cons, List.map_cons, List.map_map, first, h.signals]
    congr 1
    exact List.map_congr_left fun p _ => (signalAt?_pushed held (front?_spec front).1 p).symm
  mem_iff := mem_pushed_iff held (front?_spec front).1 h.mem_iff
  sorted := by
    refine List.pairwise_cons.2 ⟨fun p inside => ?_, List.pairwise_map.2 ?_⟩
    · obtain ⟨q, left, rfl⟩ := List.mem_map.1 inside
      exact before_pushed_of_head front ((h.mem_iff q).1 left)
    · exact h.sorted.imp_of_mem fun leftP leftQ =>
        before_pushed front ((h.mem_iff _).1 leftP) ((h.mem_iff _).1 leftQ)

end Served

/-! ### All signals -/

theorem goesRound_nil {c : Channel} (empty : c.pending = 0) : c.GoesRound [] [] :=
  ⟨rfl, fun p => by simp [forall_queue_of_pending empty], .nil⟩

theorem exists_goesRound {limit : Nat} {c : Channel} (enough : c.pending ≤ limit) :
    ∃ order, c.GoesRound (drainUpTo limit c).1 order := by
  induction limit generalizing c with
  | zero => exact ⟨[], goesRound_nil (Nat.le_zero.1 enough)⟩
  | succ limit ih =>
    rw [drainUpTo]
    rcases h : c.tryRecv with _ | ⟨s, after⟩
    · exact ⟨[], goesRound_nil ((pending_eq_zero_iff c).2 h)⟩
    · have taken := pending_of_tryRecv h
      obtain ⟨order, rest_round⟩ := ih (c := after) (by omega)
      obtain ⟨i, rest, front, held, rfl⟩ := exists_of_tryRecv h
      exact ⟨_, rest_round.served front (by rw [queue, held, Option.getD_some])⟩

theorem Before.asymm {c : Channel} {p q : Nat × Nat} (before : c.Before p q) : ¬c.Before q p := by
  unfold Before at *
  omega

/-- In a list that is sorted by an asymmetric order, what comes before is what stands before. -/
theorem lt_iff_of_pairwise {α : Type} {r : α → α → Prop} (asymm : ∀ {p q}, r p q → ¬r q p)
    {l : List α} (sorted : l.Pairwise r) {x y : Nat} {p q : α} (hp : l[x]? = some p)
    (hq : l[y]? = some q) : x < y ↔ r p q := by
  obtain ⟨insideX, rfl⟩ := List.getElem?_eq_some_iff.1 hp
  obtain ⟨insideY, rfl⟩ := List.getElem?_eq_some_iff.1 hq
  have stands := List.pairwise_iff_getElem.1 sorted
  refine ⟨stands x y insideX insideY, fun before => ?_⟩
  rcases Nat.lt_trichotomy x y with less | same | greater
  · exact less
  · subst same
    exact absurd before (asymm before)
  · exact absurd before (asymm (stands y x insideY insideX greater))

/-- A drain comes to an end and leaves nothing behind.  It takes every signal that is queued, each
once, and of two signals the one that comes first is the one that lies further ahead in its slot or,
if both lie equally far ahead, in the slot that is nearer to the cursor. -/
theorem drain_goes_round (c : Channel) :
    (∀ i, c.drain.2.queue i = []) ∧ c.drain.2.tryRecv = none ∧
    (∀ limit, c.drain.1.length ≤ limit → drainUpTo limit c = c.drain) ∧
    ∃ order : List (Nat × Nat),
      c.drain.1.map some = order.map (fun (i, j) => (c.queue i)[j]?) ∧
      order.Nodup ∧ (∀ i j, (i, j) ∈ order ↔ j < (c.queue i).length) ∧
      ∀ (x y : Nat) i j i' j', order[x]? = some (i, j) → order[y]? = some (i', j') →
        (x < y ↔ j < j' ∨ j = j' ∧ c.behind i < c.behind i') := by
  have drained : c.drain.2.tryRecv = none := tryRecv_drainUpTo (Nat.le_refl _)
  have empty : c.drain.2.pending = 0 := (pending_eq_zero_iff _).2 drained
  have all : c.drain.1.length = c.pending := by
    have conserved : c.drain.1.length + c.drain.2.pending = c.pending :=
      (drainUpTo_spec c.pending c).1
    omega
  obtain ⟨order, round⟩ := exists_goesRound (Nat.le_refl c.pending)
  refine ⟨forall_queue_of_pending empty, drained, fun limit enough => ?_, order, round.signals, ?_,
    fun i j => round.mem_iff (i, j), fun x y i j i' j' hp hq => ?_⟩
  · exact drainUpTo_eq_drain (tryRecv_drainUpTo (all ▸ enough))
  · refine round.sorted.imp fun {p q} before same => ?_
    subst same
    exact before.asymm before
  · exact lt_iff_of_pairwise (r := c.Before) (fun before => before.asymm) round.sorted hp hq

/-- From slot 2 on, and with slot 1 empty: 2, 0, 2, 0, 0. -/
example :
    let signal (n : UInt16) : Signal := ⟨.port n, .scaleUp, none⟩
    (drain ⟨8, [[signal 1, signal 2, signal 3], [], [signal 4, signal 5]], 2, true, true,
        Nat.lt_succ_self 2⟩).1 =
      [signal 4, signal 1, signal 5, signal 2, signal 3] := by
  decide

end ScaleWatch.Channel
