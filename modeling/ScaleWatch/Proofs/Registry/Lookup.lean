import Mathlib.Data.List.Basic
import ScaleWatch.Registry

/-!
# The registry as a map

`Registry.find?` is the view of a registry through which the theory sees it.  This file says what
each operation does to that view, one lemma an operation, and that the view together with the two
numbers of a registry is all there is to it (`Registry.ext_find?`).
-/

namespace ScaleWatch.Registry

/-! ### Entries -/

theorem lookup_cons_eq_ite (e : Stats) (rest : List Stats) (k : Key) :
    (e :: rest).lookup k = if k = e.1 then some e.2 else rest.lookup k := by
  rw [List.lookup_cons]
  by_cases h : k = e.1
  · rw [if_pos h, beq_iff_eq.2 h]
  · rw [if_neg h, beq_false_of_ne h]

theorem eq_of_not_lt {a b : Key} (h₁ : ¬a < b) (h₂ : ¬b < a) : a = b := by
  rw [Key.lt_iff_rank] at h₁ h₂
  exact Key.rank_inj.1 (by omega)

theorem lookup_place (k k' : Key) (p : Pressure) (entries : List Stats) :
    (place k p entries).lookup k' = if k' = k then some p else entries.lookup k' := by
  induction entries with
  | nil => rw [place, lookup_cons_eq_ite]
  | cons e rest ih =>
    rw [place]
    split
    · rw [lookup_cons_eq_ite]
    · next notBefore =>
      split
      · next after =>
        rw [lookup_cons_eq_ite, ih, lookup_cons_eq_ite]
        by_cases h : k' = k
        · have other : k' ≠ e.1 := fun same => notBefore (by rwa [← same, h] at after ⊢)
          simp only [h, if_neg (h ▸ other), if_true]
        · simp only [h, if_false]
      · next notAfter =>
        have same : k = e.1 := eq_of_not_lt notBefore notAfter
        rw [lookup_cons_eq_ite, lookup_cons_eq_ite, ← same]
        by_cases h : k' = k <;> simp only [h, if_true, if_false]

theorem lookup_replace (k k' : Key) (p : Pressure) (entries : List Stats) :
    (replace k p entries).lookup k' =
      if k' = k then (entries.lookup k).map fun _ => p else entries.lookup k' := by
  induction entries with
  | nil => simp [replace]
  | cons e rest ih =>
    have tail : replace k p (e :: rest) =
        (if e.1 = k then (k, p) else e) :: replace k p rest := rfl
    rw [tail, lookup_cons_eq_ite, ih, lookup_cons_eq_ite, lookup_cons_eq_ite]
    by_cases here : e.1 = k
    · rw [if_pos here, here]
      by_cases h : k' = k <;> simp [h]
    · rw [if_neg here]
      by_cases h : k' = k
      · subst h
        simp [Ne.symm here]
      · simp [h]

theorem lookup_filter_ne (k k' : Key) (entries : List Stats) :
    (entries.filter (·.1 ≠ k)).lookup k' = if k' = k then none else entries.lookup k' := by
  induction entries with
  | nil => simp
  | cons e rest ih =>
    rw [List.filter_cons]
    split
    · next kept =>
      have other : e.1 ≠ k := by simpa using kept
      rw [lookup_cons_eq_ite, ih, lookup_cons_eq_ite]
      by_cases h : k' = k
      · subst h
        simp [Ne.symm other]
      · simp [h]
    · next dropped =>
      have here : e.1 = k := by simpa using dropped
      rw [ih, lookup_cons_eq_ite, here]
      by_cases h : k' = k <;> simp [h]

theorem mem_iff_lookup {entries : List Stats} (sorted : entries.Pairwise fun a b => a.1 < b.1)
    (e : Stats) : e ∈ entries ↔ entries.lookup e.1 = some e.2 := by
  induction entries with
  | nil => simp
  | cons first rest ih =>
    obtain ⟨least, tail⟩ := List.pairwise_cons.1 sorted
    rw [lookup_cons_eq_ite, List.mem_cons]
    by_cases h : e.1 = first.1
    · rw [if_pos h, Option.some_inj]
      constructor
      · rintro (rfl | inside)
        · rfl
        · have := least e inside
          rw [h, Key.lt_iff_rank] at this
          omega
      · intro same
        exact .inl (Prod.ext h same.symm)
    · rw [if_neg h, ih tail]
      exact ⟨fun hyp => hyp.resolve_left fun same => h (same ▸ rfl), .inr⟩

/-! ### Operations -/

theorem contains_iff {k : Key} {r : Registry} : r.contains k ↔ ∃ p, r.find? k = some p :=
  Option.isSome_iff_exists

theorem find?_of_register {k : Key} {r r' : Registry} {isNew : Bool}
    (h : r.register k = .ok (isNew, r')) (k' : Key) :
    r'.find? k' = if isNew ∧ k' = k then some .zero else r.find? k' := by
  unfold register at h
  split at h
  · cases h
    simp
  · split at h <;> cases h
    simp only [true_and]
    exact lookup_place k k' .zero r.entries

theorem find?_unregister (k k' : Key) (r : Registry) :
    (r.unregister k).2.find? k' = if k' = k then none else r.find? k' := by
  unfold unregister
  split
  · exact lookup_filter_ne k k' r.entries
  · next absent =>
    by_cases h : k' = k
    · subst h
      simpa [contains] using absent
    · rw [if_neg h]

theorem find?_of_update {k : Key} {f : Pressure → α × Pressure} {r r' : Registry} {a : α}
    (h : r.update k f = some (a, r')) (k' : Key) :
    r'.find? k' = if k' = k then (r.find? k).map fun p => (f p).2 else r.find? k' := by
  obtain ⟨p, hp, same⟩ := Option.map_eq_some_iff.1 h
  cases same
  refine (lookup_replace k k' _ r.entries).trans ?_
  rw [show r.entries.lookup k = some p from hp, hp]
  rfl

theorem update_eq_none_iff {k : Key} {f : Pressure → α × Pressure} {r : Registry} :
    r.update k f = none ↔ r.find? k = none :=
  Option.map_eq_none_iff

theorem answer_of_update {k : Key} {f : Pressure → α × Pressure} {r r' : Registry} {a : α}
    (h : r.update k f = some (a, r')) : ∃ p, r.find? k = some p ∧ a = (f p).1 := by
  obtain ⟨p, hp, same⟩ := Option.map_eq_some_iff.1 h
  cases same
  exact ⟨p, hp, rfl⟩

theorem numbers_of_update {k : Key} {f : Pressure → α × Pressure} {r r' : Registry} {a : α}
    (h : r.update k f = some (a, r')) : r'.capacity = r.capacity ∧ r'.reserved = r.reserved := by
  obtain ⟨p, -, same⟩ := Option.map_eq_some_iff.1 h
  cases same
  exact ⟨rfl, rfl⟩

/-- Whether the key is registered or not, an update acts on its pressure. -/
theorem find?_elim_update (k k' : Key) (f : Pressure → α × Pressure) (r : Registry) :
    ((r.update k f).elim r (·.2)).find? k' =
      if k' = k then (r.find? k').map fun p => (f p).2 else r.find? k' := by
  rcases h : r.update k f with _ | ⟨a, r'⟩
  · have absent := update_eq_none_iff.1 h
    rw [Option.elim_none]
    split
    · next same => rw [same, absent, Option.map_none]
    · rfl
  · rw [Option.elim_some, find?_of_update h]
    split
    · next same => rw [same]
    · rfl

theorem numbers_elim_update (k : Key) (f : Pressure → α × Pressure) (r : Registry) :
    ((r.update k f).elim r (·.2)).capacity = r.capacity ∧
      ((r.update k f).elim r (·.2)).reserved = r.reserved := by
  rcases h : r.update k f with _ | ⟨a, r'⟩
  · exact ⟨rfl, rfl⟩
  · exact numbers_of_update h

/-! ### The view is all there is -/

theorem nodup_entries (r : Registry) : r.entries.Nodup :=
  r.sorted.imp fun {a b} less same => by
    rw [same, Key.lt_iff_rank] at less
    omega

theorem ext_find? {r r' : Registry} (capacity : r.capacity = r'.capacity)
    (reserved : r.reserved = r'.reserved) (find : ∀ k, r.find? k = r'.find? k) : r = r' := by
  have members : ∀ e, e ∈ r.entries ↔ e ∈ r'.entries := fun e => by
    rw [mem_iff_lookup r.sorted, mem_iff_lookup r'.sorted]
    exact Eq.congr_left (find e.1)
  have same : r.entries = r'.entries := by
    refine List.Perm.eq_of_pairwise ?_ r.sorted r'.sorted
      ((List.perm_ext_iff_of_nodup r.nodup_entries r'.nodup_entries).2 members)
    intro a b _ _ less more
    rw [Key.lt_iff_rank] at less more
    omega
  cases r
  cases r'
  simp_all

end ScaleWatch.Registry
