import Mathlib.Data.List.Basic
import ScaleWatch.Channel

/-!
# The slot that is served next

A stream serves the first slot, beginning at its cursor, that holds a signal; this is
`Channel.front?`.  Both ways of receiving take the head of that slot, so they agree
(`poll_eq`), they take one signal each (`pending_of_tryRecv`), and they fail only on an empty
channel (`tryRecv_eq_none_iff`).
-/

namespace ScaleWatch.Channel

/-- What slot `i` holds. -/
def queue (c : Channel) (i : Nat) : List Signal :=
  c.slots[i]?.getD []

/-- The first slot, beginning at the cursor, that holds a signal. -/
def front? (c : Channel) : Option Nat :=
  (List.range c.slots.length).findSome? fun offset =>
    if c.queue (c.slotAt offset) = [] then none else some (c.slotAt offset)

/-- Take the head of slot `i`. -/
def takeFrom (c : Channel) (i : Nat) : Option (Signal × Channel) :=
  match c.slots[i]? with
  | some (s :: rest) => some (s, c.served i rest)
  | _ => none

theorem slotAt_lt (c : Channel) (offset : Nat) : c.slotAt offset < c.slots.length :=
  Nat.mod_lt _ c.slots_pos

theorem takeFrom_eq_none_iff (c : Channel) (i : Nat) : c.takeFrom i = none ↔ c.queue i = [] := by
  unfold takeFrom queue
  rcases c.slots[i]? with _ | _ | ⟨s, rest⟩ <;> simp

theorem queue_of_takeFrom {c c' : Channel} {i : Nat} {s : Signal}
    (h : c.takeFrom i = some (s, c')) : ∃ rest, c.queue i = s :: rest ∧ c' = c.served i rest := by
  unfold takeFrom at h
  split at h
  · next s' rest held =>
    cases h
    exact ⟨rest, by simp [queue, held], rfl⟩
  · cases h

theorem findSome?_takeFrom (c : Channel) (offsets : List Nat) :
    (offsets.findSome? fun offset => c.takeFrom (c.slotAt offset)) =
      (offsets.findSome? fun offset =>
        if c.queue (c.slotAt offset) = [] then none
        else some (c.slotAt offset)).bind c.takeFrom := by
  induction offsets with
  | nil => rfl
  | cons offset rest ih =>
    rw [List.findSome?_cons, List.findSome?_cons, ih]
    by_cases h : c.queue (c.slotAt offset) = []
    · rw [if_pos h, (takeFrom_eq_none_iff c _).2 h]
    · rw [if_neg h]
      rcases hs : c.takeFrom (c.slotAt offset) with _ | taken
      · exact absurd ((takeFrom_eq_none_iff c _).1 hs) h
      · exact hs.symm

theorem tryRecv_eq (c : Channel) : c.tryRecv = c.front?.bind c.takeFrom :=
  findSome?_takeFrom c _

theorem pollAlong_cons (c : Channel) (offset : Nat) (rest : List Nat) (closed : Nat) :
    c.pollAlong (offset :: rest) closed =
      match c.takeFrom (c.slotAt offset) with
      | some (s, after) => (.ready s, after)
      | none => c.pollAlong rest (if c.emitterOpen then closed else closed + 1) := by
  rw [pollAlong]
  unfold takeFrom
  rcases c.slots[c.slotAt offset]? with _ | _ | ⟨s, queued⟩ <;> rfl

theorem pollAlong_eq (c : Channel) (offsets : List Nat) (closed : Nat) :
    c.pollAlong offsets closed =
      match offsets.findSome? fun offset => c.takeFrom (c.slotAt offset) with
      | some (s, after) => (.ready s, after)
      | none =>
        (if closed + (if c.emitterOpen then 0 else offsets.length) = c.slots.length then .ended
          else .pending, c) := by
  induction offsets generalizing closed with
  | nil => simp [pollAlong]
  | cons offset rest ih =>
    rw [pollAlong_cons, List.findSome?_cons, ih]
    have shift : (if c.emitterOpen then closed else closed + 1) +
        (if c.emitterOpen then 0 else rest.length) =
        closed + if c.emitterOpen then 0 else (offset :: rest).length := by
      rw [List.length_cons]
      split_ifs <;> omega
    rw [shift]
    rcases c.takeFrom (c.slotAt offset) with _ | ⟨s, after⟩ <;> rfl

/-- Polling takes what receiving without waiting takes; it differs only in what it says of a
channel that holds nothing. -/
theorem poll_eq (c : Channel) :
    c.poll = match c.tryRecv with
      | some (s, after) => (.ready s, after)
      | none => (if c.emitterOpen then .pending else .ended, c) := by
  have positive := c.slots_pos
  rw [poll, pollAlong_eq]
  change (match c.tryRecv with | some (s, after) => _ | none => _) = _
  rcases c.tryRecv with _ | ⟨s, after⟩
  · cases c.emitterOpen
    · simp
    · simp
      omega
  · rfl

/-! ### What is left behind -/

theorem tryRecv_of_poll {c c' : Channel} {signal : Signal} (h : c.poll = (.ready signal, c')) :
    c.tryRecv = some (signal, c') := by
  rw [Channel.poll_eq] at h
  rcases hc : c.tryRecv with _ | ⟨s, after⟩
  · rw [hc] at h
    simp only [Prod.mk.injEq] at h
    split at h <;> exact absurd h.1 (by simp)
  · rw [hc] at h
    cases h
    rfl

theorem front?_spec {c : Channel} {i : Nat} (h : c.front? = some i) :
    i < c.slots.length ∧ c.queue i ≠ [] := by
  obtain ⟨offset, -, found⟩ := List.exists_of_findSome?_eq_some h
  split at found
  · cases found
  · next held =>
    cases found
    exact ⟨c.slotAt_lt offset, held⟩

theorem exists_of_tryRecv {c c' : Channel} {s : Signal} (h : c.tryRecv = some (s, c')) :
    ∃ i rest, c.front? = some i ∧ c.slots[i]? = some (s :: rest) ∧ c' = c.served i rest := by
  rw [tryRecv_eq] at h
  obtain ⟨i, hi, taken⟩ := Option.bind_eq_some_iff.1 h
  obtain ⟨rest, held, rfl⟩ := queue_of_takeFrom taken
  have inside := (front?_spec hi).1
  refine ⟨i, rest, hi, ?_, rfl⟩
  rw [queue, List.getElem?_eq_getElem inside, Option.getD_some] at held
  rw [List.getElem?_eq_getElem inside, held]

/-- Every slot lies at some offset from the cursor. -/
theorem exists_slotAt {c : Channel} {i : Nat} (h : i < c.slots.length) :
    ∃ offset < c.slots.length, c.slotAt offset = i := by
  have cursor := c.cursor_lt
  refine ⟨(i + (c.slots.length - c.cursor)) % c.slots.length, Nat.mod_lt _ c.slots_pos, ?_⟩
  rw [slotAt, Nat.add_mod_mod, show c.cursor + (i + (c.slots.length - c.cursor)) =
    i + c.slots.length by omega, Nat.add_mod_right, Nat.mod_eq_of_lt h]

theorem front?_eq_none_iff (c : Channel) : c.front? = none ↔ ∀ q ∈ c.slots, q = [] := by
  rw [front?, List.findSome?_eq_none_iff]
  constructor
  · intro none_held q hq
    obtain ⟨i, hi, rfl⟩ := List.mem_iff_getElem.1 hq
    obtain ⟨offset, inside, here⟩ := exists_slotAt hi
    have := none_held offset (List.mem_range.2 inside)
    rw [here] at this
    simpa [queue, hi] using this
  · intro empty offset _
    have held := empty _ (List.getElem_mem (c.slotAt_lt offset))
    simp [queue, c.slotAt_lt offset, held]

theorem tryRecv_eq_none_iff (c : Channel) : c.tryRecv = none ↔ ∀ q ∈ c.slots, q = [] := by
  rw [← front?_eq_none_iff, tryRecv_eq]
  rcases h : c.front? with _ | i
  · simp
  · simp [takeFrom_eq_none_iff, (front?_spec h).2]

theorem pending_eq_zero_iff (c : Channel) : c.pending = 0 ↔ c.tryRecv = none := by
  rw [tryRecv_eq_none_iff, pending, List.length_eq_zero_iff, List.flatten_eq_nil_iff]

/-- Taking the head of a queue takes it from all that is queued. -/
theorem perm_flatten_set {α : Type} {queues : List (List α)} {i : Nat} {head : α} {rest : List α}
    (h : queues[i]? = some (head :: rest)) :
    (head :: (queues.set i rest).flatten).Perm queues.flatten := by
  induction queues generalizing i with
  | nil => simp at h
  | cons first others ih =>
    cases i with
    | zero =>
      rw [List.getElem?_cons_zero, Option.some_inj] at h
      rw [h, List.set_cons_zero, List.flatten_cons, List.flatten_cons]
      exact .refl _
    | succ i =>
      rw [List.getElem?_cons_succ] at h
      rw [List.set_cons_succ, List.flatten_cons, List.flatten_cons]
      exact List.perm_middle.symm.trans ((ih h).append_left first)

/-- Putting a signal behind a queue adds it to all that is queued. -/
theorem perm_set_concat {α : Type} {queues : List (List α)} {i : Nat} (inside : i < queues.length)
    (x : α) : (queues.set i (queues[i]?.getD [] ++ [x])).flatten.Perm (x :: queues.flatten) := by
  induction queues generalizing i with
  | nil => exact absurd inside (Nat.not_lt_zero i)
  | cons first rest ih =>
    cases i with
    | zero =>
      rw [List.set_cons_zero, List.getElem?_cons_zero, Option.getD_some, List.flatten_cons,
        List.flatten_cons, List.append_assoc]
      exact List.perm_middle
    | succ i =>
      rw [List.set_cons_succ, List.getElem?_cons_succ, List.flatten_cons, List.flatten_cons]
      have tail := ih (Nat.lt_of_succ_lt_succ inside)
      exact (tail.append_left first).trans List.perm_middle

theorem pending_of_tryRecv {c c' : Channel} {s : Signal} (h : c.tryRecv = some (s, c')) :
    c.pending = c'.pending + 1 := by
  obtain ⟨i, rest, -, held, rfl⟩ := exists_of_tryRecv h
  exact (perm_flatten_set held).length_eq.symm

/-! ### Taking several -/

/-- Receiving once is draining one. -/
theorem drainUpTo_one (c : Channel) :
    drainUpTo 1 c = match c.tryRecv with
      | some (s, after) => ([s], after)
      | none => ([], c) := by
  rw [drainUpTo]
  rcases c.tryRecv with _ | ⟨s, after⟩ <;> rfl

/-- One more signal than `limit`: the one that is ready after the others were taken. -/
theorem drainUpTo_succ (limit : Nat) (c : Channel) :
    drainUpTo (limit + 1) c =
      match (drainUpTo limit c).2.tryRecv with
      | none => drainUpTo limit c
      | some (s, after) => ((drainUpTo limit c).1 ++ [s], after) := by
  induction limit generalizing c with
  | zero =>
    rw [drainUpTo, drainUpTo]
    rcases c.tryRecv with _ | ⟨s, after⟩ <;> rfl
  | succ limit ih =>
    rw [drainUpTo, drainUpTo]
    rcases h : c.tryRecv with _ | ⟨s, after⟩
    · simp only [h]
    · simp only [ih after]
      rcases (drainUpTo limit after).2.tryRecv with _ | ⟨t, final⟩ <;> rfl

theorem drainUpTo_eq_drain {limit : Nat} {c : Channel}
    (h : (drainUpTo limit c).2.tryRecv = none) : drainUpTo limit c = c.drain := by
  induction limit generalizing c with
  | zero => rw [drain, (pending_eq_zero_iff c).2 h]
  | succ limit ih =>
    rw [drain]
    rcases hc : c.tryRecv with _ | ⟨s, after⟩
    · rw [(pending_eq_zero_iff c).2 hc]
      simp only [drainUpTo, hc]
    · rw [drainUpTo, hc] at h
      rw [pending_of_tryRecv hc, drainUpTo, drainUpTo, hc]
      simp only [ih h]
      rfl

theorem tryRecv_drainUpTo {limit : Nat} {c : Channel} (h : c.pending ≤ limit) :
    (drainUpTo limit c).2.tryRecv = none := by
  induction limit generalizing c with
  | zero => exact (pending_eq_zero_iff c).1 (Nat.le_zero.1 h)
  | succ limit ih =>
    rw [drainUpTo]
    rcases hc : c.tryRecv with _ | ⟨s, after⟩
    · exact hc
    · exact ih (by have := pending_of_tryRecv hc; omega)

end ScaleWatch.Channel
