import ScaleWatch.Proofs.Channel.Front

/-!
# Where the signals in a channel come from

A channel holds signals, and two signals of a key may be equal.  To tell them apart, a second list
of slots is kept beside the channel, in which each signal has the number of the evaluation that
sent it.  What is done to the channel is done to both alike; then the two stay beside each other,
and no numbered signal is lost or doubled on its way out (`perm_put`, `perm_takeUpTo`).
-/

namespace ScaleWatch

/-- A signal that was sent, and by which evaluation of its key, counted from 0. -/
structure Sent where
  signal : Signal
  origin : Nat
  deriving DecidableEq

namespace Sent

/-- The slots hold the signals of a channel. -/
def Beside (slots : List (List Sent)) (c : Channel) : Prop :=
  slots.map (List.map (·.signal)) = c.slots

/-- Put a signal into the worker's slot, if the channel accepts it. -/
def put (worker : Nat) (x : Sent) (c : Channel) (slots : List (List Sent)) : List (List Sent) :=
  if (c.emit worker x.signal).1 then
    let i := worker % c.slots.length
    slots.set i (slots[i]?.getD [] ++ [x])
  else slots

/-- Take signals from the slots that the channel serves, at most `limit`. -/
def takeUpTo : Nat → Channel → List (List Sent) → List Sent × List (List Sent)
  | 0, _, slots => ([], slots)
  | limit + 1, c, slots =>
    match c.front?, c.tryRecv with
    | some i, some (_, after) =>
      match slots[i]? with
      | some (x :: rest) =>
        let (taken, left) := takeUpTo limit after (slots.set i rest)
        (x :: taken, left)
      | _ => ([], slots)
    | _, _ => ([], slots)

/-- As many slots as these, with nothing in them. -/
def empty {α : Type} (queues : List (List α)) : List (List Sent) :=
  queues.map fun _ => []

section Beside

variable {slots : List (List Sent)} {c : Channel}

theorem Beside.length (h : Beside slots c) : slots.length = c.slots.length := by
  rw [← h, List.length_map]

theorem Beside.getElem? (h : Beside slots c) (i : Nat) :
    c.slots[i]? = slots[i]?.map (List.map (·.signal)) := by
  rw [← h, List.getElem?_map]

theorem flatten_empty {α : Type} (queues : List (List α)) : (empty queues).flatten = [] := by
  rw [empty, List.flatten_eq_nil_iff]
  intro queue inside
  obtain ⟨-, -, rfl⟩ := List.mem_map.1 inside
  rfl

theorem beside_empty_new (count capacity : Nat) :
    Beside (empty (Channel.new count capacity).slots) (.new count capacity) := by
  show (empty (List.replicate _ [])).map _ = List.replicate _ []
  rw [empty, List.map_replicate, List.map_replicate, List.map_nil]

theorem Beside.dropStream (h : Beside slots c) : Beside (empty slots) c.dropStream := by
  show (empty slots).map _ = c.slots.map fun _ => []
  rw [← h, empty, List.map_map, List.map_map]
  rfl

/-! ### Putting -/

theorem Beside.put (h : Beside slots c) (worker : Nat) (x : Sent) :
    Beside (put worker x c slots) (c.emit worker x.signal).2 := by
  unfold Sent.put Channel.emit
  by_cases accepted : c.streamOpen = true ∧
      (c.slots[worker % c.slots.length]?.getD []).length < c.capacity
  · simp only [accepted, and_self, if_true]
    show (slots.set _ _).map _ = c.slots.set _ _
    rw [List.map_set, h, h.getElem?]
    cases slots[worker % c.slots.length]? <;> simp
  · simp only [accepted, if_false, Bool.false_eq_true]
    exact h

/-- An accepted signal joins the others, and a refused one is gone. -/
theorem perm_put (h : Beside slots c) (worker : Nat) (x : Sent) :
    (put worker x c slots).flatten.Perm (x :: slots.flatten) ∨ put worker x c slots = slots := by
  unfold put
  split
  · refine .inl (Channel.perm_set_concat ?_ x)
    rw [h.length]
    exact Nat.mod_lt _ c.slots_pos
  · exact .inr rfl

/-! ### Taking -/

/-- The slot that is served holds the signal that the channel gives out. -/
theorem Beside.front (h : Beside slots c) {s : Signal} {after : Channel}
    (ready : c.tryRecv = some (s, after)) :
    ∃ i x rest, c.front? = some i ∧ slots[i]? = some (x :: rest) ∧ x.signal = s ∧
      Beside (slots.set i rest) after := by
  obtain ⟨i, queued, front, held, rfl⟩ := Channel.exists_of_tryRecv ready
  rw [h.getElem?] at held
  obtain ⟨queue, here, same⟩ := Option.map_eq_some_iff.1 held
  obtain ⟨x, rest, rfl, rfl, rfl⟩ := List.map_eq_cons_iff.1 same
  refine ⟨i, x, rest, front, here, rfl, ?_⟩
  show (slots.set i rest).map _ = c.slots.set i _
  rw [List.map_set, h]

/-- Taking numbered signals is draining the channel, and none is lost or doubled. -/
theorem Beside.takeUpTo (h : Beside slots c) (limit : Nat) :
    (takeUpTo limit c slots).1.map (·.signal) = (Channel.drainUpTo limit c).1 ∧
      Beside (takeUpTo limit c slots).2 (Channel.drainUpTo limit c).2 ∧
      ((takeUpTo limit c slots).1 ++ (takeUpTo limit c slots).2.flatten).Perm slots.flatten := by
  induction limit generalizing c slots with
  | zero => exact ⟨rfl, h, .refl _⟩
  | succ limit ih =>
    rcases ready : c.tryRecv with _ | ⟨s, after⟩
    · have stays : Sent.takeUpTo (limit + 1) c slots = ([], slots) := by
        rw [Sent.takeUpTo, ready]
        rcases c.front? with _ | i <;> rfl
      rw [stays, Channel.drainUpTo, ready]
      exact ⟨rfl, h, .refl _⟩
    · obtain ⟨i, x, rest, front, here, rfl, beside⟩ := h.front ready
      obtain ⟨signals, beside', perm⟩ := ih beside
      rw [Sent.takeUpTo, Channel.drainUpTo, ready, front]
      simp only [here]
      refine ⟨?_, beside', ?_⟩
      · rw [List.map_cons, signals]
      · exact (perm.cons x).trans (Channel.perm_flatten_set here)

end Beside

end Sent

end ScaleWatch
