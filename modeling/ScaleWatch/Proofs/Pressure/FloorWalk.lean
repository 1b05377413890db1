import Mathlib.Data.List.Induction
import Mathlib.Order.Bounds.Defs
import ScaleWatch.Pressure

/-!
# The count as a walk with a floor

A count goes one up with an opened connection and one down with a closed one, but never below
zero.  So it is not the balance of all its transitions: what was closed at zero is forgotten.
`walk_spec` says what is left.  The count is the largest balance that the transitions since some
moment have, and `walk_eq_iff` says when this is the balance above a given lowest point.
-/

namespace ScaleWatch.Pressure

/-- The count after transitions from zero, had it no largest value. -/
def walk (ts : List Transition) : Nat :=
  ts.foldl (fun n t => match t with
    | .established => n + 1
    | .closed => n - 1) 0

/-- Connections opened less connections closed. -/
def balance (ts : List Transition) : Int :=
  ts.count .established - ts.count .closed

theorem walk_concat (ts : List Transition) (t : Transition) :
    walk (ts ++ [t]) = match t with
      | .established => walk ts + 1
      | .closed => walk ts - 1 := by
  rw [walk, List.foldl_append]
  rfl

theorem balance_append (earlier later : List Transition) :
    balance (earlier ++ later) = balance earlier + balance later := by
  unfold balance
  rw [List.count_append, List.count_append]
  omega

theorem balance_concat (ts : List Transition) (t : Transition) :
    balance (ts ++ [t]) = match t with
      | .established => balance ts + 1
      | .closed => balance ts - 1 := by
  rw [balance_append]
  cases t with
  | established => rfl
  | closed =>
    show balance ts + -1 = balance ts - 1
    omega

/-- The count is at least the balance since any moment, and it is the balance since one. -/
theorem walk_spec (ts : List Transition) :
    (∀ earlier, earlier <+: ts → balance ts - balance earlier ≤ walk ts) ∧
      ∃ earlier, earlier <+: ts ∧ balance ts - balance earlier = walk ts := by
  induction ts using List.reverseRecOn with
  | nil =>
    refine ⟨fun earlier h => ?_, [], List.prefix_rfl, rfl⟩
    rw [List.prefix_nil.1 h]
    decide
  | append_singleton ts t ih =>
    obtain ⟨above, lowest, before, reached⟩ := ih
    rw [balance_concat, walk_concat]
    constructor
    · intro earlier h
      rcases List.prefix_concat_iff.1 h with rfl | h
      · rw [balance_concat]
        cases t <;> simp only <;> omega
      · have := above earlier h
        cases t <;> simp only <;> omega
    · cases t with
      | established =>
        refine ⟨lowest, before.trans (List.prefix_append _ _), ?_⟩
        simp only
        omega
      | closed =>
        by_cases floor : walk ts = 0
        · -- What is closed at zero is forgotten: the balance counts from now on.
          refine ⟨ts ++ [.closed], List.prefix_rfl, ?_⟩
          rw [balance_concat, floor]
          simp
        · refine ⟨lowest, before.trans (List.prefix_append _ _), ?_⟩
          simp only
          omega

/-- The count is the largest balance that the transitions from some moment on have. -/
theorem isGreatest_walk (ts : List Transition) :
    IsGreatest {n : Int | ∃ since, since <:+ ts ∧ n = balance since} (walk ts) := by
  obtain ⟨above, lowest, ⟨since, split⟩, reached⟩ := walk_spec ts
  constructor
  · refine ⟨since, ⟨lowest, split⟩, ?_⟩
    rw [← reached, ← split, balance_append]
    omega
  · rintro n ⟨since, ⟨earlier, split⟩, rfl⟩
    have atMost := above earlier ⟨since, split⟩
    rw [← split, balance_append] at atMost
    rw [← split]
    omega

/-- If the balance never was below `-n`, the count is the balance above `-n` exactly if the
balance was there at some moment; otherwise it is less. -/
theorem walk_eq_iff {ts : List Transition} {n : Int}
    (bounded : ∀ earlier, earlier <+: ts → -n ≤ balance earlier) :
    (walk ts : Int) ≤ balance ts + n ∧
      ((walk ts : Int) = balance ts + n ↔ ∃ earlier, earlier <+: ts ∧ balance earlier = -n) := by
  obtain ⟨above, lowest, before, reached⟩ := walk_spec ts
  have low := bounded lowest before
  refine ⟨by omega, fun full => ⟨lowest, before, by omega⟩, ?_⟩
  rintro ⟨earlier, h, touched⟩
  have := above earlier h
  omega

theorem walk_le_count (ts : List Transition) : walk ts ≤ ts.count .established := by
  induction ts using List.reverseRecOn with
  | nil => exact Nat.le_refl 0
  | append_singleton ts t ih =>
    rw [walk_concat, List.count_append]
    cases t <;> simp <;> omega

/-- Below the largest count, one step of the count is one step of the walk. -/
theorem toNat_count_apply (t : Transition) {p : Pressure} {ts : List Transition}
    (same : p.count.toNat = walk ts) (room : walk (ts ++ [t]) < UInt32.size) :
    (p.apply t).count.toNat = walk (ts ++ [t]) := by
  rw [walk_concat, ← same] at room ⊢
  cases t with
  | established =>
    show (successor p.count).toNat = _
    rw [successor, if_pos room, UInt32.toNat_add, UInt32.toNat_one, Nat.mod_eq_of_lt room]
  | closed =>
    show (predecessor p.count).toNat = _
    unfold predecessor
    by_cases floor : p.count = 0
    · rw [if_pos floor, floor]
      rfl
    · have positive : 1 ≤ p.count := by
        rw [UInt32.le_iff_toNat_le]
        have : p.count.toNat ≠ 0 := fun h => floor (UInt32.toNat_inj.1 h)
        show 1 ≤ p.count.toNat
        omega
      rw [if_neg floor, UInt32.toNat_sub_of_le _ _ positive]
      rfl

end ScaleWatch.Pressure
