import ScaleWatch.Proofs.Pressure.Latching

/-!
# Wider bounds fire no more

Two keys without a gate are judged on the same counts, one by bounds that lie within those of the
other and that ask for no longer a run.  A run that the narrow bounds see unbroken falls apart into
several under the wide ones, and these end after other numbers of events, so the two runs have
nothing to do with each other at any one moment.

What can be compared is again a level, if both are measured by the narrow bounds: each signal is
taken for as many events as make their full run.  So measured, a signal of the wide bounds counts
for no more events than it took (`levelBy_judge_le`), and the level of the wide bounds never is
above that of the narrow ones (`levelBy_le_level`).
-/

namespace ScaleWatch

namespace Bounds

open Pressure

/-- The band of the bounds lies within that of `wide`, which ask for no fewer events in a row. -/
structure Within (b wide : Bounds) : Prop where
  lower : wide.lower ≤ b.lower
  upper : b.upper ≤ wide.upper
  bufferLength : b.bufferLength ≤ wide.bufferLength

section Within

variable {b wide : Bounds}

theorem Within.outOfBand (h : b.Within wide) {count : UInt32}
    (outside : wide.outOfBand count = true) : b.outOfBand count = true := by
  rw [outOfBand_iff] at outside ⊢
  exact outside.imp (fun low => UInt32.le_trans low h.lower)
    fun high => UInt32.le_trans h.upper high

theorem Within.fullRun_le (h : b.Within wide) : fullRun b ≤ fullRun wide := by
  have := UInt32.le_iff_toNat_le.1 h.bufferLength
  rw [fullRun, fullRun]
  omega

end Within

end Bounds

namespace Pressure

/-! ### Levels by a common measure -/

/-- The events in the run of a key without a gate and in its signals, when `unit` of them are taken
for a signal. -/
def levelBy (unit : Nat) (b : Bounds) (asks : List Ask) : Nat :=
  signals .ungated b asks * unit + (outcome .ungated b asks).run.toNat

section Within

variable {b wide : Bounds} {asks : List Ask}

theorem levelBy_clear (unit : Nat) (b : Bounds) (asks : List Ask) :
    levelBy unit b (asks ++ [.clear]) = levelBy unit b asks := by
  rw [levelBy, levelBy, signals_concat, outcome_concat]
  rfl

/-- A signal that counts for fewer events than it took does not raise the level. -/
theorem levelBy_judge_le {unit : Nat} (small : unit ≤ fullRun b) (count : UInt32) :
    levelBy unit b (asks ++ [.judge count]) ≤
      if b.outOfBand count then levelBy unit b asks + 1 else signals .ungated b asks * unit := by
  have free := gated_outcome_ungated b asks
  have short := (withinBounds_outcome .ungated b asks).run_lt_fullRun
  have judged := level_evaluate free short .ungated count
  have cheaper := Nat.mul_le_mul_left
    ((outcome .ungated b asks).evaluate .ungated b count).1.isSome.toNat small
  have unfolded : levelBy unit b (asks ++ [.judge count]) =
      signals .ungated b asks * unit +
        (((outcome .ungated b asks).evaluate .ungated b count).1.isSome.toNat * unit +
          ((outcome .ungated b asks).evaluate .ungated b count).2.run.toNat) := by
    rw [levelBy, signals_concat, outcome_concat, Nat.add_mul, Nat.add_assoc]
    rfl
  rw [unfolded, levelBy]
  split at judged <;> split <;> omega

/-- What the level of the wide bounds holds of full runs, the narrow bounds have fired. -/
theorem signals_le_of_levelBy_le (h : levelBy (fullRun b) wide asks ≤ level .ungated b asks) :
    signals .ungated wide asks ≤ signals .ungated b asks := by
  have positive : 0 < fullRun b := Nat.lt_of_lt_of_le Nat.zero_lt_one (Nat.le_max_left _ _)
  rw [signals_eq_div .ungated b, Nat.le_div_iff_mul_le positive]
  exact (Nat.le_add_right _ _).trans h

theorem levelBy_le_level (h : b.Within wide) (asks : List Ask) :
    levelBy (fullRun b) wide asks ≤ level .ungated b asks := by
  induction asks using List.reverseRecOn with
  | nil => exact Nat.le_refl _
  | append_singleton asks a ih =>
    cases a with
    | clear => rwa [levelBy_clear, level_clear]
    | judge count =>
      have fewer := Nat.mul_le_mul_right (fullRun b) (signals_le_of_levelBy_le ih)
      refine (levelBy_judge_le h.fullRun_le count).trans ?_
      rw [level_judge (gated_outcome_ungated b asks)]
      by_cases outside : wide.outOfBand count = true
      · rw [if_pos outside, if_pos (h.outOfBand outside)]
        exact Nat.succ_le_succ ih
      · rw [if_neg outside]
        split
        · exact ((Nat.le_add_right _ _).trans ih).trans (Nat.le_succ _)
        · exact fewer

end Within

/-! ### The first signal -/

section FirstSignal

variable {fired : List (Option Direction)} {d : Direction} {i n : Nat}

theorem getElem?_of_firstSignal? (h : firstSignal? fired = some (d, i)) :
    fired[i]? = some (some d) := by
  obtain ⟨⟨here, j⟩, inside, same⟩ := List.exists_of_findSome?_eq_some h
  obtain ⟨d', rfl, pair⟩ := Option.map_eq_some_iff.1 same
  cases pair
  exact List.mk_mem_zipIdx_iff_getElem?.1 inside

/-- Something has been fired by the time that the first signal is out, and not before. -/
theorem firstSignal?_lt_iff :
    (∃ d i, firstSignal? fired = some (d, i) ∧ i < n) ↔
      0 < (fired.take n).countP Option.isSome := by
  rw [List.countP_pos_iff]
  constructor
  · rintro ⟨d, i, first, before⟩
    have here := getElem?_of_firstSignal? first
    exact ⟨some d, List.mem_iff_getElem?.2 ⟨i, by rw [List.getElem?_take_of_lt before, here]⟩, rfl⟩
  · rintro ⟨x, inside, isSignal⟩
    rcases first : firstSignal? (fired.take n) with _ | ⟨d, i⟩
    · rw [eq_none_of_firstSignal? first x inside] at isSignal
      cases isSignal
    · refine ⟨d, i, ?_, ?_⟩
      · rw [← List.take_append_drop n fired]
        exact firstSignal?_append_of_some first _
      · have here := (List.getElem?_eq_some_iff.1 (getElem?_of_firstSignal? first)).1
        rw [List.length_take] at here
        omega

end FirstSignal

/-- Of two keys that are asked the same under bounds one within the other, the one with the wider
bounds has at every moment fired no more often, if neither has a gate; and if both latch, the first
signal of the one with the wider bounds does not come before that of the other. -/
theorem wider_bounds_fire_no_more {b wide : Bounds} (within : b.Within wide) (asks : List Ask) :
    (∀ n, ((verdicts .ungated wide asks).take n).countP Option.isSome ≤
      ((verdicts .ungated b asks).take n).countP Option.isSome) ∧
    ∀ d i, firstSignal? (verdicts .latched wide asks) = some (d, i) →
      ∃ d' j, firstSignal? (verdicts .latched b asks) = some (d', j) ∧ j ≤ i := by
  have fewer : ∀ n, ((verdicts .ungated wide asks).take n).countP Option.isSome ≤
      ((verdicts .ungated b asks).take n).countP Option.isSome := by
    intro n
    rw [take_verdicts, take_verdicts]
    exact signals_le_of_levelBy_le (levelBy_le_level within _)
  refine ⟨fewer, fun d i first => ?_⟩
  rw [firstSignal?_alike] at first ⊢
  have out : 0 < ((verdicts .ungated wide asks).take (i + 1)).countP Option.isSome :=
    firstSignal?_lt_iff.1 ⟨d, i, first, Nat.lt_succ_self i⟩
  obtain ⟨d', j, first', before⟩ := firstSignal?_lt_iff.2 (out.trans_le (fewer (i + 1)))
  exact ⟨d', j, first', Nat.le_of_lt_succ before⟩

/-- Under the bounds 2 and 8 the first six counts are one run; under 1 and 10 they are two. -/
def fallingApart : List Ask :=
  [1, 1, 2, 1, 0, 1, 5, 9, 10, 11, 12].map .judge

theorem wider_bounds_fire_no_more_fallingApart :
    Bounds.Within ⟨2, 8, 2⟩ ⟨1, 10, 3⟩ ∧
      (∀ n, ((verdicts .ungated ⟨1, 10, 3⟩ fallingApart).take n).countP Option.isSome ≤
        ((verdicts .ungated ⟨2, 8, 2⟩ fallingApart).take n).countP Option.isSome) ∧
      firstSignal? (verdicts .latched ⟨1, 10, 3⟩ fallingApart) = some (.scaleDown, 5) ∧
      ∃ d j, firstSignal? (verdicts .latched ⟨2, 8, 2⟩ fallingApart) = some (d, j) ∧ j ≤ 5 := by
  have within : Bounds.Within ⟨2, 8, 2⟩ ⟨1, 10, 3⟩ := ⟨by decide, by decide, by decide⟩
  obtain ⟨fewer, sooner⟩ := wider_bounds_fire_no_more within fallingApart
  have first : firstSignal? (verdicts .latched ⟨1, 10, 3⟩ fallingApart) = some (.scaleDown, 5) := by
    decide +kernel
  exact ⟨within, fewer, first, sooner _ _ first⟩

end Pressure

end ScaleWatch
