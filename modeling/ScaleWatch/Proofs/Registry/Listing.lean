import Mathlib.Data.List.Nodup
import ScaleWatch.Proofs.Registry.Lookup

/-!
# Listings in order

The keys of a registry stand in order, and so do its entries.  Nothing hangs on how this comes
about: whoever keeps the entries in any order and sorts what is listed has the same listing
(`Registry.mergeSort_of_perm`), and so has one who sorts the keys and strikes out repetitions
(`Registry.sortDistinct_eq_keys`).
-/

namespace ScaleWatch

namespace Key

/-! ### Sorted keys -/

/-- What is sorted by its keys is in their order. -/
theorem pairwise_mergeSort {α : Type} (key : α → Key) (l : List α) :
    (l.mergeSort fun a b => key a ≤ key b).Pairwise fun a b => (key a).rank ≤ (key b).rank := by
  have trans (a b c : α) (first : decide ((key a).rank ≤ (key b).rank) = true)
      (second : decide ((key b).rank ≤ (key c).rank) = true) :
      decide ((key a).rank ≤ (key c).rank) = true := by
    rw [decide_eq_true_eq] at *
    exact Nat.le_trans first second
  have total (a b : α) : (decide ((key a).rank ≤ (key b).rank) ||
      decide ((key b).rank ≤ (key a).rank)) = true := by
    simpa using Nat.le_total (key a).rank (key b).rank
  exact (List.pairwise_mergeSort trans total l).imp of_decide_eq_true

theorem nodup_of_increasing {keys : List Key} (increasing : keys.Pairwise (· < ·)) :
    keys.Nodup := by
  refine increasing.imp fun {a b} less => ?_
  rintro rfl
  exact Nat.lt_irrefl _ less

theorem eq_of_increasing {keys keys' : List Key} (increasing : keys.Pairwise (· < ·))
    (increasing' : keys'.Pairwise (· < ·)) (same : ∀ k, k ∈ keys ↔ k ∈ keys') : keys = keys' := by
  have perm := (List.perm_ext_iff_of_nodup (nodup_of_increasing increasing)
    (nodup_of_increasing increasing')).2 same
  exact perm.eq_of_pairwise (fun _ _ _ _ less greater => absurd less (Nat.lt_asymm greater))
    increasing increasing'

/-- Keys in order, of which each is kept once. -/
theorem distinct_spec {keys : List Key} (sorted : keys.Pairwise fun a b => a.rank ≤ b.rank) :
    let distinct := keys.foldr (fun k rest => if rest.head? = some k then rest else k :: rest) []
    distinct.Pairwise (· < ·) ∧ ∀ k, k ∈ distinct ↔ k ∈ keys := by
  induction sorted with
  | nil => simp
  | @cons k keys least _ ih =>
    obtain ⟨increasing, members⟩ := ih
    simp only [List.foldr_cons]
    generalize keys.foldr _ [] = rest at *
    split
    · next again =>
      have inside : k ∈ keys := (members k).1 (List.mem_of_head? again)
      refine ⟨increasing, fun k' => (members k').trans ?_⟩
      rw [List.mem_cons, or_iff_right_of_imp]
      rintro rfl
      exact inside
    · next fresh =>
      refine ⟨List.pairwise_cons.2 ⟨fun k' inside => ?_, increasing⟩, fun k' => ?_⟩
      · rcases rest with _ | ⟨next, rest⟩
        · cases inside
        · have upTo : k.rank ≤ next.rank := least next ((members next).1 List.mem_cons_self)
          have before : k < next := Nat.lt_of_le_of_ne upTo fun same =>
            fresh (congrArg some (rank_inj.1 same.symm))
          rcases List.mem_cons.1 inside with rfl | inside
          · exact before
          · exact Nat.lt_trans before ((List.pairwise_cons.1 increasing).1 k' inside)
      · rw [List.mem_cons, List.mem_cons, members k']

theorem sortDistinct_spec (keys : List Key) :
    (sortDistinct keys).Pairwise (· < ·) ∧ ∀ k, k ∈ sortDistinct keys ↔ k ∈ keys := by
  obtain ⟨increasing, members⟩ := distinct_spec (pairwise_mergeSort id keys)
  exact ⟨increasing, fun k => (members k).trans List.mem_mergeSort⟩

end Key

/-! ### The listings of a registry -/

namespace Registry

variable {r : Registry}

theorem increasing_keys (r : Registry) : r.keys.Pairwise (· < ·) :=
  List.pairwise_map.2 r.sorted

theorem mergeSort_of_perm {listing : List Stats} (same : listing.Perm r.entries) :
    (listing.mergeSort fun a b => a.1 ≤ b.1) = r.entries := by
  have perm := (List.mergeSort_perm listing fun a b => decide (a.1 ≤ b.1)).trans same
  refine List.Perm.eq_of_pairwise (fun e e' inside inside' le ge => ?_)
    (Key.pairwise_mergeSort Prod.fst listing) (r.sorted.imp Nat.le_of_lt) perm
  -- no key has two entries
  have key : e.1 = e'.1 := Key.rank_inj.1 (Nat.le_antisymm le ge)
  have found := (mem_iff_lookup r.sorted e).1 (perm.mem_iff.1 inside)
  rw [key, (mem_iff_lookup r.sorted e').1 inside'] at found
  exact Prod.ext key (Option.some.inj found).symm

theorem sortDistinct_eq_keys {keys : List Key} (same : ∀ k, k ∈ keys ↔ k ∈ r.keys) :
    Key.sortDistinct keys = r.keys := by
  obtain ⟨increasing, members⟩ := Key.sortDistinct_spec keys
  exact Key.eq_of_increasing increasing r.increasing_keys fun k =>
    (members k).trans (same k)

end Registry

end ScaleWatch
