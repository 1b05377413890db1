import ScaleWatch.Proofs.Channel.RoundRobin

/-!
# No slot of a channel starves

A signal at the head of its slot does not wait for ever, however fast the other slots are refilled.
It is received with the next signal if its slot is the first behind the cursor that holds one.  If
not, the slot that is served lies nearer to the cursor, and the cursor goes to the slot behind that
one, so that the waiting slot is nearer afterwards (`behind_served_lt`).  Emissions leave the cursor
where it is.  So the distance from the cursor bounds how many receives go to other slots first
(`exists_givesOut`), and as many receives as there are slots cannot all pass over a slot that holds
a signal (`no_slot_starves`).
-/

namespace ScaleWatch.Channel

/-- Whether an operation asks for one signal. -/
def Op.receivesOne : Op → Bool
  | tryRecv | poll | recv => true
  | emit _ _ | drain | dropEmitter | dropStream => false

/-- Operations that only emit or ask for one signal. -/
def Mixed (ops : List Op) : Prop :=
  ∀ op ∈ ops, op.receivesOne = true ∨ ∃ worker s, op = .emit worker s

/-- How often a signal is asked for. -/
def receives (ops : List Op) : Nat :=
  ops.countP Op.receivesOne

/-- After the operations `before`, each of whose receives was successful, `op` gives out the signal
`s` that was at the head of slot `i`.  What stood behind it in the slot, and what has been emitted
to the slot since then, is left. -/
structure GivesOut (c : Channel) (i : Nat) (s : Signal) (rest : List Signal) (before : List Op)
    (op : Op) : Prop where
  receivesOne : op.receivesOne = true
  successful : ((run before c).1.flatMap Answer.signals).length = receives before
  waits : (run before c).2.queue i = s :: (rest ++ acceptedOn i before c)
  signals : ((run before c).2.step op).1.signals = [s]
  leaves : ((run before c).2.step op).2.queue i = rest ++ acceptedOn i before c

/-! ### One operation -/

section Step

variable {c : Channel} {i j : Nat} {op : Op}

theorem isReceive_of_receivesOne (one : op.receivesOne = true) : op.isReceive = true := by
  cases op with
  | tryRecv | poll | recv => rfl
  | _ => cases one

/-- In whichever way a signal is asked for, one is taken if there is one. -/
theorem step_of_receivesOne (one : op.receivesOne = true) (c : Channel) :
    (c.step op).1.signals = (drainUpTo (if c.streamOpen then 1 else 0) c).1 ∧
      (c.step op).2 = (drainUpTo (if c.streamOpen then 1 else 0) c).2 := by
  have limit : op.limit c = if c.streamOpen then 1 else 0 := by
    cases op with
    | tryRecv | poll | recv => rfl
    | _ => cases one
  rw [← limit]
  exact step_of_receive op c (isReceive_of_receivesOne one)

/-- As long as there is a signal, asking for one takes the head of the slot that is next. -/
theorem step_of_front (one : op.receivesOne = true) (isOpen : c.streamOpen = true)
    (front : c.front? = some j) :
    ∃ s rest, c.queue j = s :: rest ∧ (c.step op).1.signals = [s] ∧
      (c.step op).2 = c.served j rest := by
  obtain ⟨signals, after⟩ := step_of_receivesOne one c
  rw [if_pos isOpen, drainUpTo_one] at signals after
  rcases taken : c.tryRecv with _ | ⟨s, left⟩
  · rw [tryRecv_eq, front, Option.bind_some, takeFrom_eq_none_iff] at taken
    exact absurd taken (front?_spec front).2
  · rw [taken] at signals after
    rw [tryRecv_eq, front] at taken
    obtain ⟨rest, held, rfl⟩ := queue_of_takeFrom taken
    exact ⟨s, rest, held, signals, after⟩

/-- When another slot is served, a slot that holds a signal comes nearer to the cursor. -/
theorem behind_served_lt (front : c.front? = some j) (held : c.queue i ≠ []) (other : i ≠ j)
    (rest : List Signal) : (c.served j rest).behind i < c.behind i := by
  have inside : i < c.slots.length := by
    by_contra outside
    exact held (queue_of_le (Nat.not_lt.1 outside))
  have served := (front?_spec front).1
  have bound := behind_bounds c j
  have further : c.behind j < c.behind i := by
    rcases Int.lt_trichotomy (c.behind j) (c.behind i) with less | same | nearer
    · exact less
    · exact absurd (behind_inj served inside same) (Ne.symm other)
    · exact absurd (queue_of_behind_lt front inside nearer) held
  rw [behind_served served rest inside, if_pos further]
  omega

theorem accepted_of_receivesOne (one : op.receivesOne = true) : op.accepted i c = [] := by
  cases op with
  | tryRecv | poll | recv => rfl
  | _ => cases one

theorem behind_step_emit (worker : Nat) (s : Signal) (c : Channel) (i : Nat) :
    (c.step (.emit worker s)).2.behind i = c.behind i := by
  have size := (sameSize_step (.emit worker s) c).1
  have cursor : (c.step (.emit worker s)).2.cursor = c.cursor := by
    simp only [step, emit]
    split
    · split <;> rfl
    · rfl
  unfold behind
  rw [size, cursor]

theorem queue_step_emit (worker : Nat) (s : Signal) (c : Channel) (i : Nat) :
    (c.step (.emit worker s)).2.queue i =
      c.queue i ++ (Op.emit worker s).accepted i c :=
  (conserves_step (.emit worker s) c (by simp) i).symm

theorem signals_step_emit (worker : Nat) (s : Signal) (c : Channel) :
    (c.step (.emit worker s)).1.signals = [] :=
  signals_step (.emit worker s) c

end Step

/-! ### Runs -/

section Run

variable {c : Channel} {i : Nat} {s : Signal} {rest : List Signal} {ops : List Op}

theorem Mixed.tail {op : Op} (mixed : Mixed (op :: ops)) : Mixed ops := fun other inside =>
  mixed other (List.mem_cons_of_mem op inside)

theorem flatMap_signals_cons (op : Op) (ops : List Op) (c : Channel) :
    (run (op :: ops) c).1.flatMap Answer.signals =
      (c.step op).1.signals ++ (run ops (c.step op).2).1.flatMap Answer.signals :=
  List.flatMap_cons

/-- An operation that comes before may emit, or give out a signal of another slot. -/
theorem GivesOut.cons {first op : Op} {before : List Op}
    (gives : (c.step first).2.GivesOut i s (rest ++ first.accepted i c) before op)
    (successful : (c.step first).1.signals.length = if first.receivesOne then 1 else 0) :
    c.GivesOut i s rest (first :: before) op := by
  have accepted : rest ++ acceptedOn i (first :: before) c =
      rest ++ first.accepted i c ++ acceptedOn i before (c.step first).2 := by
    rw [acceptedOn, List.append_assoc]
  refine ⟨gives.receivesOne, ?_, ?_, gives.signals, ?_⟩
  · rw [flatMap_signals_cons, List.length_append, gives.successful, successful, receives,
      receives, List.countP_cons]
    omega
  · rw [accepted]
    exact gives.waits
  · rw [accepted]
    exact gives.leaves

/-- The head of a slot is given out when at most so many signals have been as the slot lies behind
the cursor. -/
theorem exists_givesOut (isOpen : c.streamOpen = true) (held : c.queue i = s :: rest)
    (mixed : Mixed ops) (enough : c.behind i < receives ops) :
    ∃ before op after, ops = before ++ op :: after ∧ (receives before : Int) ≤ c.behind i ∧
      c.GivesOut i s rest before op := by
  induction ops generalizing c rest with
  | nil =>
    have nonneg := (behind_bounds c i).1
    exact absurd enough (Int.not_lt.2 nonneg)
  | cons op ops ih =>
    have present : c.queue i ≠ [] := by simp [held]
    rcases mixed op List.mem_cons_self with one | ⟨worker, t, rfl⟩
    · rcases front : c.front? with _ | j
      · exact absurd ((forall_queue_eq_nil_iff c).2 ((front?_eq_none_iff c).1 front) i) present
      obtain ⟨t, left, heldThere, signals, after⟩ := step_of_front one isOpen front
      have served := (front?_spec front).1
      by_cases own : i = j
      · subst own
        cases held.symm.trans heldThere
        refine ⟨[], op, ops, rfl, (behind_bounds c i).1, one, rfl, ?_, signals, ?_⟩
        · show c.queue i = _
          rw [held, acceptedOn, List.append_nil]
        · show (c.step op).2.queue i = _
          rw [after, queue_served served, if_pos rfl, acceptedOn, List.append_nil]
      · have nearer := behind_served_lt front present own left
        have counted : receives (op :: ops) = receives ops + 1 := List.countP_cons_of_pos one
        have still : (c.step op).2.queue i = s :: (rest ++ op.accepted i c) := by
          rw [after, queue_served served, if_neg own, held, accepted_of_receivesOne one,
            List.append_nil]
        obtain ⟨before, op', later, rfl, inTime, gives⟩ :=
          ih (by rw [after]; exact isOpen) still mixed.tail (by rw [after]; omega)
        refine ⟨op :: before, op', later, rfl, ?_, gives.cons (by simp [signals, one])⟩
        rw [after] at inTime
        have counted' : receives (op :: before) = receives before + 1 := List.countP_cons_of_pos one
        omega
    · -- an emission may only lengthen the queue
      have uncounted : ∀ ops, receives (.emit worker t :: ops) = receives ops := fun ops =>
        List.countP_cons_of_neg (by simp [Op.receivesOne])
      have still : (c.step (.emit worker t)).2.queue i =
          s :: (rest ++ (Op.emit worker t).accepted i c) := by
        rw [queue_step_emit, held]
        rfl
      obtain ⟨before, op', later, rfl, inTime, gives⟩ :=
        ih (by simp [streamOpen_step, isOpen]) still mixed.tail
          (by rw [behind_step_emit, ← uncounted]; exact enough)
      refine ⟨.emit worker t :: before, op', later, rfl, ?_, gives.cons ?_⟩
      · rw [uncounted, ← behind_step_emit worker t c i]
        exact inTime
      · rw [signals_step_emit]
        rfl

/-- A slot that holds a signal, and holds the same afterwards, is passed over. -/
def PassesOver (c : Channel) (i : Nat) (op : Op) : Prop :=
  c.queue i ≠ [] ∧ (c.step op).2.queue i = c.queue i

/-- Whatever is emitted meanwhile and in whichever way signals are asked for, the signal at the head
of a slot is among the first that are received: at most so many others come before it as its slot
lies behind the cursor.  Until then no receive is in vain.  So there are fewer receives in a row
that pass over a slot than there are slots. -/
theorem no_slot_starves (isOpen : c.streamOpen = true) (held : c.queue i = s :: rest)
    (mixed : Mixed ops) :
    (((i : Int) - c.cursor) % c.slots.length + 1 ≤ receives ops →
      ∃ before op after, ops = before ++ op :: after ∧
        (receives before + 1 : Int) ≤ ((i : Int) - c.cursor) % c.slots.length + 1 ∧
        c.GivesOut i s rest before op) ∧
    ((∀ before op after, ops = before ++ op :: after → op.receivesOne = true →
        (run before c).2.PassesOver i op) →
      receives ops < c.slots.length) := by
  have found : c.behind i < receives ops → _ := exists_givesOut isOpen held mixed
  refine ⟨fun enough => ?_, fun passed => ?_⟩
  · obtain ⟨before, op, after, all, inTime, gives⟩ := found (Int.lt_of_add_one_le enough)
    exact ⟨before, op, after, all, Int.add_le_add_right inTime 1, gives⟩
  · by_contra many
    have bound := (behind_bounds c i).2
    obtain ⟨before, op, after, all, -, gives⟩ := found (by omega)
    have same := (passed before op after all gives.receivesOne).2
    rw [gives.leaves, gives.waits] at same
    exact absurd (congrArg List.length same) (by simp)

/-- Slot 0 is the last of three behind the cursor, and the other two are refilled all the time. -/
def lastInTurn : Channel :=
  ⟨1, [[⟨.port 1, .scaleUp, none⟩], [⟨.port 2, .scaleUp, none⟩], []], 1, true, true, by decide⟩

def refilling : List Op :=
  [.poll, .emit 1 ⟨.port 3, .scaleDown, none⟩, .emit 2 ⟨.port 4, .scaleDown, none⟩, .tryRecv,
    .emit 2 ⟨.port 5, .scaleDown, none⟩, .emit 0 ⟨.port 6, .scaleDown, none⟩, .recv]

theorem no_slot_starves_refilling :
    (run refilling lastInTurn).1.flatMap Answer.signals =
      [⟨.port 2, .scaleUp, none⟩, ⟨.port 4, .scaleDown, none⟩, ⟨.port 1, .scaleUp, none⟩] ∧
    ∃ before op after, refilling = before ++ op :: after ∧ receives before < 3 ∧
      lastInTurn.GivesOut 0 ⟨.port 1, .scaleUp, none⟩ [] before op := by
  have mixed : Mixed refilling := by simp [Mixed, refilling, Op.receivesOne]
  obtain ⟨before, op, after, all, inTime, gives⟩ :=
    (no_slot_starves (c := lastInTurn) (i := 0) rfl rfl mixed).1 (by decide)
  have distance : ((0 : Nat) - lastInTurn.cursor : Int) % lastInTurn.slots.length = 2 := by decide
  exact ⟨by decide, before, op, after, all, by omega, gives⟩

end Run

end ScaleWatch.Channel
