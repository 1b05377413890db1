import Mathlib.Data.List.Forall2
import ScaleWatch.Proofs.Channel.Fairness

/-!
# In whichever way a signal is asked for

A signal can be received without waiting or by polling, and a receiver that waits polls.  Whichever
way is taken, the same signal comes out of the same slot and the channel is the same afterwards;
what differs is only how it is told that there is none (`step_of_alike`).  So in a run one way may
be exchanged for another wherever one likes, and nobody else notices (`receives_agree`).
-/

namespace ScaleWatch.Channel

/-- Operations that are the same but perhaps for the way in which one signal is asked for. -/
def Op.Alike (op op' : Op) : Prop :=
  op = op' ∨ op.receivesOne = true ∧ op'.receivesOne = true

/-! ### One operation -/

section Step

variable {op op' : Op}

theorem step_of_alike (alike : op.Alike op') (c : Channel) :
    (c.step op).1.signals = (c.step op').1.signals ∧ (c.step op).2 = (c.step op').2 := by
  rcases alike with rfl | ⟨one, one'⟩
  · exact ⟨rfl, rfl⟩
  · obtain ⟨signals, after⟩ := step_of_receivesOne one c
    obtain ⟨signals', after'⟩ := step_of_receivesOne one' c
    exact ⟨signals.trans signals'.symm, after.trans after'.symm⟩

/-- One who gets no signal leaves the channel as it is. -/
theorem step_of_no_signal (one : op.receivesOne = true) {c : Channel}
    (nothing : (c.step op).1.signals = []) : (c.step op).2 = c := by
  obtain ⟨signals, after⟩ := step_of_receivesOne one c
  rw [after]
  by_cases isOpen : c.streamOpen = true
  · rw [if_pos isOpen, drainUpTo_one] at signals ⊢
    rcases ready : c.tryRecv with _ | ⟨s, left⟩
    · rfl
    · rw [nothing, ready] at signals
      cases signals
  · rw [if_neg isOpen]
    rfl

/-- What is told of a channel, asked without waiting or polled. -/
theorem answers_agree (c : Channel) :
    (∀ s, (c.step .tryRecv).1 = .received (some s) ↔ (c.step .poll).1 = .polled (.ready s)) ∧
    ((c.step .tryRecv).1 = .received none ↔
      (c.step .poll).1 = .polled .pending ∨ (c.step .poll).1 = .polled .ended) := by
  by_cases isOpen : c.streamOpen = true
  · simp only [step, receive, isOpen, if_true, poll_eq]
    rcases c.tryRecv with _ | ⟨s, after⟩
    · cases c.emitterOpen <;> simp
    · simp
  · simp [step, receive, isOpen]

end Step

/-! ### Runs -/

section Run

variable {ops ops' : List Op}

theorem run_of_alike (alike : List.Forall₂ Op.Alike ops ops') (c : Channel) :
    (run ops c).2 = (run ops' c).2 ∧
      (run ops c).1.map Answer.signals = (run ops' c).1.map Answer.signals := by
  induction alike generalizing c with
  | nil => exact ⟨rfl, rfl⟩
  | @cons op op' ops ops' first _ ih =>
    obtain ⟨signals, after⟩ := step_of_alike first c
    obtain ⟨final, later⟩ := ih (c.step op).2
    refine ⟨?_, ?_⟩
    · rw [snd_run_cons, snd_run_cons, final, after]
    · rw [fst_run_cons, fst_run_cons, List.map_cons, List.map_cons, signals, later, after]

/-- An operation that is not exchanged has the same answer. -/
theorem answer_of_alike (alike : List.Forall₂ Op.Alike ops ops') (c : Channel) (i : Nat)
    (same : ops[i]? = ops'[i]?) : (run ops c).1[i]? = (run ops' c).1[i]? := by
  induction alike generalizing c i with
  | nil => rfl
  | @cons op op' ops ops' first _ ih =>
    cases i with
    | zero =>
      cases same
      rfl
    | succ i =>
      rw [List.getElem?_cons_succ, List.getElem?_cons_succ] at same
      rw [fst_run_cons, fst_run_cons, List.getElem?_cons_succ, List.getElem?_cons_succ,
        ← (step_of_alike first c).2]
      exact ih (c.step op).2 i same

/-- Asking without waiting and polling agree: one gives out a signal if and only if the other gives
out the same, the channel is the same after both, and it is what it was if there is no signal.  So
where the way of asking is exchanged in a run, the same signals come out at the same places, all
other answers stay as they are, and so does the channel that is left. -/
theorem receives_agree (c : Channel) :
    (∀ s, (c.step .tryRecv).1 = .received (some s) ↔ (c.step .poll).1 = .polled (.ready s)) ∧
    ((c.step .tryRecv).1 = .received none ↔
      (c.step .poll).1 = .polled .pending ∨ (c.step .poll).1 = .polled .ended) ∧
    (c.step .tryRecv).2 = (c.step .poll).2 ∧
    ((c.step .tryRecv).1.signals = [] → (c.step .tryRecv).2 = c ∧ (c.step .poll).2 = c) ∧
    ∀ ops ops', List.Forall₂ Op.Alike ops ops' →
      (run ops c).2 = (run ops' c).2 ∧
      (run ops c).1.map Answer.signals = (run ops' c).1.map Answer.signals ∧
      ∀ i : Nat, ops[i]? = ops'[i]? → (run ops c).1[i]? = (run ops' c).1[i]? := by
  have alike : Op.Alike .tryRecv .poll := .inr ⟨rfl, rfl⟩
  have after : (c.step .tryRecv).2 = (c.step .poll).2 := (step_of_alike alike c).2
  refine ⟨(answers_agree c).1, (answers_agree c).2, after, fun nothing => ?_,
    fun ops ops' alike => ?_⟩
  · have left := step_of_no_signal rfl nothing
    exact ⟨left, after.symm.trans left⟩
  · obtain ⟨final, signals⟩ := run_of_alike alike c
    exact ⟨final, signals, answer_of_alike alike c⟩

/-- Slots that hold a signal, that are empty and, at last, that are closed. -/
def askedAtOnce : List Op :=
  [.tryRecv, .emit 2 ⟨.port 1, .scaleUp, none⟩, .emit 1 ⟨.port 2, .scaleDown, some 3⟩, .tryRecv,
    .dropEmitter, .tryRecv, .tryRecv]

def askedEitherWay : List Op :=
  [.poll, .emit 2 ⟨.port 1, .scaleUp, none⟩, .emit 1 ⟨.port 2, .scaleDown, some 3⟩, .recv,
    .dropEmitter, .tryRecv, .poll]

theorem receives_agree_untilClosed :
    (run askedEitherWay (new 3 1)).1 =
      [.polled .pending, .accepted true, .accepted true,
        .received (some ⟨.port 2, .scaleDown, some 3⟩), .dropped true,
        .received (some ⟨.port 1, .scaleUp, none⟩), .polled .ended] ∧
    (run askedAtOnce (new 3 1)).2 = (run askedEitherWay (new 3 1)).2 ∧
    (run askedAtOnce (new 3 1)).1[5]? = (run askedEitherWay (new 3 1)).1[5]? := by
  have alike : List.Forall₂ Op.Alike askedAtOnce askedEitherWay := by
    simp [askedAtOnce, askedEitherWay, Op.Alike, Op.receivesOne]
  obtain ⟨final, -, answers⟩ := (receives_agree (new 3 1)).2.2.2.2 _ _ alike
  exact ⟨by decide, final, answers 5 rfl⟩

end Run

end ScaleWatch.Channel
