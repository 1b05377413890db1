import Mathlib.Data.List.DropRight
import ScaleWatch.Pressure

/-!
# The signal law of one key

What an evaluation returns is decided by everything that happened to its key before.  This file
reads it off the history alone: an evaluation is suppressed while a latched signal stands
uncleared, and the streak of a history is the number of evaluations at its end, the suppressed
ones left out, that were out of band and silent.  `signal_law` says that an evaluation fires
exactly when it is not suppressed, its count is out of band and it makes the streak as long as its
own bounds ask for, and that the run that a key carries is that streak at every moment.
-/

namespace ScaleWatch.Pressure

/-! ### Histories -/

/-- A step that was made, and its answer. -/
structure Entry where
  step : Step
  answer : Answer

/-- The entries of steps made one after the other. -/
def history : List Step → Pressure → List Entry
  | [], _ => []
  | s :: rest, p => ⟨s, (step s p).1⟩ :: history rest (step s p).2

/-- The pressure after steps made one after the other. -/
def after (steps : List Step) (p : Pressure) : Pressure :=
  steps.foldl (fun p s => (step s p).2) p

theorem history_append (earlier later : List Step) (p : Pressure) :
    history (earlier ++ later) p = history earlier p ++ history later (after earlier p) := by
  induction earlier generalizing p with
  | nil => rfl
  | cons s rest ih =>
    rw [List.cons_append, history, ih]
    rfl

theorem length_history (steps : List Step) (p : Pressure) :
    (history steps p).length = steps.length := by
  induction steps generalizing p with
  | nil => rfl
  | cons s rest ih => rw [history, List.length_cons, ih, List.length_cons]

/-! ### Suppression -/

/-- An evaluation that returned a signal and holds the gate for it. -/
def Entry.latches : Entry → Bool
  | ⟨.evaluate .latched _ _, .signal (some _)⟩ => true
  | _ => false

def Entry.clears : Entry → Bool
  | ⟨.clearGate, _⟩ => true
  | _ => false

/-- Some latched signal was returned, and no clear came after it. -/
def Suppressed (past : List Entry) : Prop :=
  ∃ before e since, past = before ++ e :: since ∧ e.latches ∧ ∀ x ∈ since, ¬x.clears

theorem suppressed_concat (past : List Entry) (e : Entry) :
    Suppressed (past ++ [e]) ↔ e.latches ∨ Suppressed past ∧ ¬e.clears := by
  constructor
  · rintro ⟨before, x, since, split, latched, silent⟩
    rcases List.eq_nil_or_concat since with rfl | ⟨since, y, rfl⟩
    · have last := (List.append_inj' split rfl).2
      rw [List.singleton_inj] at last
      exact .inl (last ▸ latched)
    · rw [List.concat_eq_append, ← List.cons_append, ← List.append_assoc] at split
      obtain ⟨rfl, last⟩ := List.append_inj' split rfl
      rw [List.singleton_inj] at last
      refine .inr ⟨⟨before, x, since, rfl, latched, fun z hz => silent z ?_⟩, ?_⟩
      · simp [hz]
      · rw [last]
        exact silent y (by simp)
  · rintro (latched | ⟨⟨before, x, since, rfl, latched, silent⟩, notClear⟩)
    · exact ⟨past, e, [], rfl, latched, by simp⟩
    · refine ⟨before, x, since ++ [e], by simp, latched, fun z hz => ?_⟩
      rcases List.mem_append.1 hz with old | new
      · exact silent z old
      · rwa [List.mem_singleton.1 new]

theorem not_suppressed_nil : ¬Suppressed [] := by
  rintro ⟨before, e, since, split, -⟩
  simp at split

/-- Suppression, decided from the oldest entry to the newest. -/
theorem foldl_eq_true_iff_suppressed (past : List Entry) :
    past.foldl (fun held e => e.latches || held && !e.clears) false = true ↔ Suppressed past := by
  induction past using List.reverseRecOn with
  | nil => simp [not_suppressed_nil]
  | append_singleton past e ih => simp [suppressed_concat, ← ih]

instance (past : List Entry) : Decidable (Suppressed past) :=
  decidable_of_iff _ (foldl_eq_true_iff_suppressed past)

/-! ### The streak -/

/-- What an evaluation was asked, and what it returned. -/
structure Verdict where
  bounds : Bounds
  count : UInt32
  fired : Option Direction

def Entry.verdict? : Entry → Option Verdict
  | ⟨.evaluate _ b count, .signal fired⟩ => some ⟨b, count, fired⟩
  | _ => none

/-- Out of band under its own bounds, and silent. -/
def Verdict.builds (v : Verdict) : Bool :=
  v.bounds.outOfBand v.count && v.fired.isNone

/-- The evaluations among `entries` that were not suppressed, when `before` had happened. -/
def judged (before : List Entry) : List Entry → List Verdict
  | [] => []
  | e :: rest =>
    (if Suppressed before then [] else e.verdict?.toList) ++ judged (before ++ [e]) rest

/-- The length of the longest suffix of the evaluations so far, the suppressed ones left out, that
were all out of band and silent. -/
def streak (past : List Entry) : Nat :=
  ((judged [] past).rtakeWhile Verdict.builds).length

theorem judged_concat (before past : List Entry) (e : Entry) :
    judged before (past ++ [e]) = judged before past ++
      if Suppressed (before ++ past) then [] else e.verdict?.toList := by
  induction past generalizing before with
  | nil => simp [judged]
  | cons x rest ih => simp [judged, ih, List.append_assoc]

theorem streak_concat_of_suppressed {past : List Entry} (h : Suppressed past) (e : Entry) :
    streak (past ++ [e]) = streak past := by
  unfold streak
  rw [judged_concat, List.nil_append, if_pos h, List.append_nil]

theorem streak_concat_of_no_verdict (past : List Entry) {e : Entry} (h : e.verdict? = none) :
    streak (past ++ [e]) = streak past := by
  unfold streak
  rw [judged_concat, h]
  simp

theorem streak_concat_of_verdict {past : List Entry} (h : ¬Suppressed past) {e : Entry}
    {v : Verdict} (hv : e.verdict? = some v) :
    streak (past ++ [e]) = if v.builds then streak past + 1 else 0 := by
  unfold streak
  rw [judged_concat, List.nil_append, if_neg h, hv, Option.toList_some, List.rtakeWhile_concat]
  split
  · rw [List.length_append, List.length_singleton]
  · rfl

/-! ### What one step keeps -/

/-- The gate and the run of a pressure tell what the history of its key says of them. -/
structure Reflects (past : List Entry) (p : Pressure) : Prop where
  gated : p.gated = true ↔ Suppressed past
  run : p.run.toNat = streak past
  /-- The run can still grow, whatever buffer length comes next. -/
  room : p.run.toNat + 1 < UInt32.size

theorem reflects_zero : Reflects [] zero :=
  ⟨by simp [zero, not_suppressed_nil], by simp [zero, streak, judged], by decide⟩

theorem toNat_successor {n : UInt32} (h : n.toNat + 1 < UInt32.size) :
    (successor n).toNat = n.toNat + 1 := by
  rw [successor, if_pos h, UInt32.toNat_add, UInt32.toNat_one, Nat.mod_eq_of_lt h]

theorem le_successor_iff {n b : UInt32} (h : n.toNat + 1 < UInt32.size) :
    b ≤ successor n ↔ b.toNat ≤ n.toNat + 1 := by
  rw [UInt32.le_iff_toNat_le, toNat_successor h]

theorem toNat_le_of_le_successor {n b : UInt32} (h : b ≤ successor n) : b.toNat ≤ n.toNat + 1 := by
  by_cases room : n.toNat + 1 < UInt32.size
  · exact (le_successor_iff room).1 h
  · rw [successor, if_neg room, UInt32.le_iff_toNat_le] at h
    omega

theorem outOfBand_iff {b : Bounds} {count : UInt32} :
    b.outOfBand count = true ↔ count ≤ b.lower ∨ b.upper ≤ count := by
  simp [Bounds.outOfBand]

theorem evaluate_of_gated {p : Pressure} (h : p.gated = true) (policy : GatePolicy) (b : Bounds)
    (count : UInt32) : p.evaluate policy b count = (none, p) := by
  rw [evaluate, if_pos h]

theorem evaluate_of_inBand {p : Pressure} (h : p.gated = false) {b : Bounds} {count : UInt32}
    (inside : b.outOfBand count = false) (policy : GatePolicy) :
    p.evaluate policy b count = (none, { p with run := 0 }) := by
  simp [evaluate, h, inside]

theorem evaluate_of_full {p : Pressure} (h : p.gated = false) {b : Bounds} {count : UInt32}
    (outside : b.outOfBand count = true) (full : b.bufferLength ≤ successor p.run)
    (policy : GatePolicy) :
    p.evaluate policy b count =
      (some (b.direction count), { p with run := 0, gated := policy = .latched }) := by
  simp [evaluate, h, outside, full]

theorem evaluate_of_short {p : Pressure} (h : p.gated = false) {b : Bounds} {count : UInt32}
    (outside : b.outOfBand count = true) (short : ¬b.bufferLength ≤ successor p.run)
    (policy : GatePolicy) :
    p.evaluate policy b count = (none, { p with run := p.run + 1 }) := by
  simp [evaluate, h, outside, short]

/-- At the top of the range every buffer length is reached. -/
theorem room_of_short {n b : UInt32} (short : ¬b ≤ successor n) : n.toNat + 1 < UInt32.size := by
  by_contra top
  rw [successor, if_neg top, UInt32.le_iff_toNat_le] at short
  have := b.toNat_lt
  simp only [UInt32.size] at top
  omega

theorem toNat_run_add_one {p : Pressure} {b : Bounds}
    (short : ¬b.bufferLength ≤ successor p.run) :
    (p.run + 1).toNat = p.run.toNat + 1 ∧ p.run.toNat + 1 < b.bufferLength.toNat := by
  have room := room_of_short short
  rw [le_successor_iff room, Nat.not_le] at short
  refine ⟨?_, short⟩
  rw [UInt32.toNat_add, UInt32.toNat_one, Nat.mod_eq_of_lt room]

theorem Reflects.evaluate {past : List Entry} {p : Pressure} (h : Reflects past p)
    (policy : GatePolicy) (b : Bounds) (count : UInt32) :
    Reflects (past ++ [⟨.evaluate policy b count, .signal (p.evaluate policy b count).1⟩])
      (p.evaluate policy b count).2 := by
  by_cases held : p.gated = true
  · rw [evaluate_of_gated held]
    have suppressed := h.gated.1 held
    refine ⟨?_, ?_, h.room⟩
    · rw [suppressed_concat]
      simp [held, suppressed, Entry.clears]
    · rw [streak_concat_of_suppressed suppressed, h.run]
  have free : p.gated = false := by simpa using held
  have unsuppressed : ¬Suppressed past := fun s => held (h.gated.2 s)
  by_cases outside : b.outOfBand count = true
  · by_cases full : b.bufferLength ≤ successor p.run
    · rw [evaluate_of_full free outside full]
      refine ⟨?_, ?_, by simp [UInt32.size]⟩
      · rw [suppressed_concat]
        cases policy <;> simp [unsuppressed, Entry.latches]
      · rw [streak_concat_of_verdict unsuppressed rfl]
        simp [Verdict.builds]
    · rw [evaluate_of_short free outside full]
      obtain ⟨grown, below⟩ := toNat_run_add_one full
      refine ⟨?_, ?_, ?_⟩
      · rw [suppressed_concat]
        simp [free, unsuppressed, Entry.latches]
      · rw [streak_concat_of_verdict unsuppressed rfl, ← h.run]
        simp [Verdict.builds, outside, grown]
      · -- The run stays below a buffer length, which is itself a word.
        have := b.bufferLength.toNat_lt
        simp only [grown, UInt32.size]
        omega
  · have inside : b.outOfBand count = false := by simpa using outside
    rw [evaluate_of_inBand free inside]
    refine ⟨?_, ?_, by simp [UInt32.size]⟩
    · rw [suppressed_concat]
      simp [free, unsuppressed, Entry.latches]
    · rw [streak_concat_of_verdict unsuppressed rfl]
      simp [Verdict.builds, inside]

theorem Reflects.step {past : List Entry} {p : Pressure} (h : Reflects past p) (s : Step) :
    Reflects (past ++ [⟨s, (step s p).1⟩]) (step s p).2 := by
  cases s with
  | apply t =>
    have kept : (p.apply t).run = p.run ∧ (p.apply t).gated = p.gated := by
      cases t <;> exact ⟨rfl, rfl⟩
    refine ⟨?_, ?_, ?_⟩
    · rw [suppressed_concat]
      simp [Pressure.step, kept.2, h.gated, Entry.latches, Entry.clears]
    · rw [streak_concat_of_no_verdict past rfl, ← h.run]
      exact congrArg UInt32.toNat kept.1
    · simpa [Pressure.step, kept.1] using h.room
  | evaluate policy b count => exact h.evaluate policy b count
  | clearGate =>
    refine ⟨?_, ?_, h.room⟩
    · rw [suppressed_concat]
      simp [Pressure.step, Pressure.clearGate, Entry.latches, Entry.clears]
    · rw [streak_concat_of_no_verdict past rfl, ← h.run]
      rfl

/-! ### What a whole history keeps -/

theorem Reflects.after {past : List Entry} {p : Pressure} (h : Reflects past p)
    (steps : List Step) : Reflects (past ++ history steps p) (after steps p) := by
  induction steps generalizing past p with
  | nil => simpa [history, Pressure.after] using h
  | cons s rest ih =>
    have tail := ih (h.step s)
    rw [List.append_assoc, List.singleton_append] at tail
    exact tail

theorem reflects_after_zero (steps : List Step) :
    Reflects (history steps zero) (after steps zero) :=
  reflects_zero.after steps

/-- An evaluation of a key fires exactly when it is not suppressed, is out of band and makes the
streak as long as its own bounds ask for; a count at the lower limit or below asks for less, any
other for more.  Before and after it the run is the streak of the history. -/
theorem signal_law (earlier later : List Step) (policy : GatePolicy) (b : Bounds) (count : UInt32) :
    let past := history earlier zero
    let now := Step.evaluate policy b count
    ∃ fired,
      (history (earlier ++ now :: later) zero)[earlier.length]? = some ⟨now, .signal fired⟩ ∧
      (fired.isSome ↔ ¬Suppressed past ∧ (count ≤ b.lower ∨ b.upper ≤ count) ∧
        b.bufferLength.toNat ≤ streak past + 1) ∧
      (∀ d, fired = some d → d = if count ≤ b.lower then .scaleDown else .scaleUp) ∧
      (after earlier zero).run.toNat = streak past ∧
      (after (earlier ++ [now]) zero).run.toNat = streak (history (earlier ++ [now]) zero) := by
  intro past now
  have reflects : Reflects past (after earlier zero) := reflects_after_zero earlier
  refine ⟨((after earlier zero).evaluate policy b count).1, ?_, ?_, ?_, reflects.run,
    (reflects_after_zero _).run⟩
  · rw [history_append, List.getElem?_append_right (length_history _ _).le, length_history]
    simp [history, Pressure.step, now]
  · rw [← reflects.gated, ← reflects.run, ← le_successor_iff reflects.room, ← outOfBand_iff]
    unfold Pressure.evaluate
    split_ifs
    all_goals simp_all
  · intro d fired
    unfold Pressure.evaluate at fired
    split_ifs at fired
    all_goals simp_all [Bounds.direction]

end ScaleWatch.Pressure
