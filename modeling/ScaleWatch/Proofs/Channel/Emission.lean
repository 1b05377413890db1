import ScaleWatch.Proofs.Channel.Front

/-!
# What is put into a channel, and what is left in it

A signal is accepted if the stream is there and the slot of its worker has room; then it joins what
is queued, and otherwise nothing changes.  Receiving takes signals away and adds none.  Together:
what is queued is what was accepted and has not been received, as long as the stream is there.
-/

namespace ScaleWatch.Channel

/-- The stream is there, and the slot of the worker has room. -/
def accepts (worker : Nat) (c : Channel) : Bool :=
  c.streamOpen ∧ (c.queue (worker % c.slots.length)).length < c.capacity

/-- All signals that are queued. -/
def queued (c : Channel) : List Signal :=
  c.slots.flatten

section Emit

variable (worker : Nat) (s : Signal) (c : Channel)

theorem emit_of_accepts (h : c.accepts worker = true) :
    (c.emit worker s).1 = true ∧ (c.emit worker s).2.streamOpen = true ∧
      (c.emit worker s).2.queued.Perm (s :: c.queued) := by
  have accepted : c.streamOpen = true ∧
      (c.slots[worker % c.slots.length]?.getD []).length < c.capacity := of_decide_eq_true h
  have emitted : (c.emit worker s).2.queued.Perm (s :: c.queued) := by
    unfold emit
    simp only [accepted, and_self, if_true]
    exact perm_set_concat (Nat.mod_lt _ c.slots_pos) s
  refine ⟨?_, ?_, emitted⟩
  · simp [emit, accepted]
  · simp [emit, accepted]

theorem emit_of_refuses (h : c.accepts worker = false) : c.emit worker s = (false, c) := by
  have refused : ¬(c.streamOpen = true ∧
      (c.slots[worker % c.slots.length]?.getD []).length < c.capacity) := of_decide_eq_false h
  exact if_neg refused

theorem fst_emit : (c.emit worker s).1 = c.accepts worker := by
  by_cases h : c.accepts worker = true
  · rw [(emit_of_accepts worker s c h).1, h]
  · have refuses : c.accepts worker = false := by simpa using h
    rw [emit_of_refuses worker s c refuses, refuses]

theorem pending_emit :
    (c.emit worker s).2.pending = c.pending + if c.accepts worker then 1 else 0 := by
  by_cases h : c.accepts worker = true
  · rw [if_pos h]
    exact (emit_of_accepts worker s c h).2.2.length_eq
  · have refuses : c.accepts worker = false := by simpa using h
    rw [if_neg h, emit_of_refuses worker s c refuses]
    rfl

theorem streamOpen_emit : (c.emit worker s).2.streamOpen = c.streamOpen := by
  by_cases h : c.accepts worker = true
  · have accepted : c.streamOpen = true ∧ _ := of_decide_eq_true h
    rw [(emit_of_accepts worker s c h).2.1, accepted.1]
  · have refuses : c.accepts worker = false := by simpa using h
    rw [emit_of_refuses worker s c refuses]

end Emit

theorem perm_of_tryRecv {c c' : Channel} {s : Signal} (h : c.tryRecv = some (s, c')) :
    (s :: c'.queued).Perm c.queued := by
  obtain ⟨i, rest, -, held, rfl⟩ := exists_of_tryRecv h
  exact perm_flatten_set held

theorem streamOpen_of_tryRecv {c c' : Channel} {s : Signal} (h : c.tryRecv = some (s, c')) :
    c'.streamOpen = c.streamOpen := by
  obtain ⟨i, rest, -, -, rfl⟩ := exists_of_tryRecv h
  rfl

theorem pending_dropStream (c : Channel) : c.dropStream.pending = 0 := by
  simp [pending, dropStream]

/-- What is taken was queued, and the rest still is. -/
theorem drainUpTo_spec (limit : Nat) (c : Channel) :
    (drainUpTo limit c).1.length + (drainUpTo limit c).2.pending = c.pending ∧
      (drainUpTo limit c).2.streamOpen = c.streamOpen := by
  induction limit generalizing c with
  | zero => exact ⟨Nat.zero_add _, rfl⟩
  | succ limit ih =>
    rw [drainUpTo]
    rcases h : c.tryRecv with _ | ⟨s, after⟩
    · exact ⟨Nat.zero_add _, rfl⟩
    · obtain ⟨conserved, same⟩ := ih after
      have taken := pending_of_tryRecv h
      refine ⟨?_, same.trans (streamOpen_of_tryRecv h)⟩
      simp only [List.length_cons]
      omega

theorem perm_drainUpTo (limit : Nat) (c : Channel) :
    ((drainUpTo limit c).1 ++ (drainUpTo limit c).2.queued).Perm c.queued := by
  induction limit generalizing c with
  | zero => exact .refl _
  | succ limit ih =>
    rw [drainUpTo]
    rcases h : c.tryRecv with _ | ⟨s, after⟩
    · exact .refl _
    · exact ((ih after).cons s).trans (perm_of_tryRecv h)

end ScaleWatch.Channel
