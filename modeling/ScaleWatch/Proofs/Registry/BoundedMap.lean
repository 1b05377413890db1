import Mathlib.Data.List.Nodup
import ScaleWatch.Proofs.Registry.Listing
import ScaleWatch.Registry.Tenancy

/-!
# A registry is a bounded sorted map

A registry keeps its keys in order, and beside them a number of places taken, from which alone it
tells whether there is room for another key.  `isBoundedMap_run` says that nothing goes wrong with
this: after any operations, those through handles included, as many places are taken as keys are
registered, and so registering, unregistering and listing do what they do in a map of limited size.

What carries the proof is `Counted`, which every operation keeps.
-/

namespace ScaleWatch

/-! ### The order of keys -/

/-- All namespaces come before all ports, and each kind is in the order of its numbers. -/
def Key.Precedes : Key → Key → Prop
  | netns a, netns b => a.toNat < b.toNat
  | netns _, port _ => True
  | port _, netns _ => False
  | port a, port b => a.toNat < b.toNat

theorem Key.precedes_iff_lt (a b : Key) : a.Precedes b ↔ a < b := by
  rw [lt_iff_rank]
  cases a with
  | netns i =>
    cases b with
    | netns j => rfl
    | port n =>
      have := i.toNat_lt
      simp only [Precedes, rank, UInt32.size, true_iff]
      omega
  | port m =>
    cases b with
    | netns j =>
      have := j.toNat_lt
      simp only [Precedes, rank, UInt32.size, false_iff]
      omega
    | port n => exact Nat.add_lt_add_iff_left.symm

namespace Registry

/-! ### The keys of a registry -/

section Keys

variable (r : Registry)

theorem sorted_keys : r.keys.Pairwise Key.Precedes :=
  r.increasing_keys.imp fun {a b} less => (Key.precedes_iff_lt a b).2 less

theorem nodup_keys : r.keys.Nodup :=
  Key.nodup_of_increasing r.increasing_keys

theorem mem_keys_iff (k : Key) : k ∈ r.keys ↔ r.contains k = true := by
  rw [contains_iff, keys, List.mem_map]
  constructor
  · rintro ⟨e, inside, rfl⟩
    exact ⟨e.2, (mem_iff_lookup r.sorted e).1 inside⟩
  · rintro ⟨p, found⟩
    exact ⟨(k, p), (mem_iff_lookup r.sorted (k, p)).2 found, rfl⟩

/-- The entries are the pressures of the keys, in the same order. -/
theorem map_some_entries : r.entries.map some = r.keys.map (r.stats? ·) := by
  rw [keys, List.map_map]
  refine List.map_congr_left fun e inside => ?_
  have found : r.find? e.1 = some e.2 := (mem_iff_lookup r.sorted e).1 inside
  rw [Function.comp_apply, stats?, found]
  rfl

end Keys

theorem length_place {k : Key} {entries : List Stats} (absent : entries.lookup k = none)
    (p : Pressure) : (place k p entries).length = entries.length + 1 := by
  induction entries with
  | nil => rfl
  | cons e rest ih =>
    rw [lookup_cons_eq_ite] at absent
    by_cases here : k = e.1
    · rw [if_pos here] at absent
      cases absent
    · rw [if_neg here] at absent
      rw [place]
      split
      · rfl
      · next notBefore =>
        split
        · exact congrArg (· + 1) (ih absent)
        · next notAfter => exact absurd (eq_of_not_lt notBefore notAfter) here

theorem map_fst_replace (k : Key) (p : Pressure) (entries : List Stats) :
    (replace k p entries).map (·.1) = entries.map (·.1) := by
  rw [replace, List.map_map]
  refine List.map_congr_left fun e _ => ?_
  by_cases here : e.1 = k
  · simp [here]
  · simp [here]

/-- Without one of its keys a registry has one key fewer. -/
theorem length_filter_ne {k : Key} {r : Registry} (watched : r.contains k = true) :
    (r.entries.filter (·.1 ≠ k)).length + 1 = r.keys.length := by
  have inside := (r.mem_keys_iff k).2 watched
  have left : (r.entries.filter (·.1 ≠ k)).map (·.1) = r.keys.erase k := by
    rw [r.nodup_keys.erase_eq_filter, keys, List.filter_map]
    congr 1
    exact List.filter_congr fun e _ => by simp [bne, Bool.beq_eq_decide_eq]
  rw [← List.length_map (f := (·.1)), left, List.length_erase_of_mem inside]
  exact Nat.sub_add_cancel (List.length_pos_of_mem inside)

theorem fst_unregister (k : Key) (r : Registry) : (r.unregister k).1 = r.contains k := by
  unfold unregister
  split
  · next watched => exact watched.symm
  · next absent => simpa using absent

/-! ### The number of places taken -/

/-- As many places are taken as keys are registered, and no more than there are. -/
structure Counted (capacity : Nat) (r : Registry) : Prop where
  size : r.capacity = capacity
  reserved : r.reserved = r.keys.length
  bounded : r.keys.length ≤ capacity

section Counted

variable {capacity : Nat} {r : Registry} {k : Key}

theorem counted_empty (capacity : Nat) : Counted capacity (empty capacity) :=
  ⟨rfl, rfl, Nat.zero_le _⟩

/-- Registering takes one of three ways. -/
theorem Counted.register_cases (h : Counted capacity r) (k : Key) :
    r.contains k = true ∧ r.register k = .ok (false, r) ∨
      r.contains k = false ∧ r.keys.length = capacity ∧
        r.register k = .error (.registryFull capacity) ∨
      r.contains k = false ∧ r.keys.length < capacity ∧
        ∃ r', r.register k = .ok (true, r') ∧ r'.capacity = r.capacity ∧
          r'.reserved = r.reserved + 1 ∧ r'.keys.length = r.keys.length + 1 ∧
          ∀ k', r'.find? k' = if k' = k then some .zero else r.find? k' := by
  by_cases watched : r.contains k = true
  · exact .inl ⟨watched, by rw [register, if_pos watched]⟩
  have absent : r.contains k = false := by simpa using watched
  have bounded := h.bounded
  by_cases room : r.reserved < r.capacity
  · have taken : r.register k = .ok (true, { r with
        reserved := r.reserved + 1
        entries := place k .zero r.entries
        sorted := sorted_place r.sorted }) := by rw [register, if_neg watched, if_pos room]
    have free : r.entries.lookup k = none := by simpa [contains, find?] using absent
    rw [h.reserved, h.size] at room
    refine .inr (.inr ⟨absent, room, _, taken, rfl, rfl, ?_, ?_⟩)
    · rw [keys, List.length_map, length_place free, keys, List.length_map]
    · exact fun k' => lookup_place k k' .zero r.entries
  · have refused : r.register k = .error (.registryFull r.capacity) := by
      rw [register, if_neg watched, if_neg room]
    rw [h.reserved, h.size] at room
    rw [h.size] at refused
    exact .inr (.inl ⟨absent, by omega, refused⟩)

theorem Counted.of_register (h : Counted capacity r) {r' : Registry} {isNew : Bool}
    (registered : r.register k = .ok (isNew, r')) : Counted capacity r' := by
  rcases h.register_cases k with ⟨-, same⟩ | ⟨-, -, same⟩ |
    ⟨-, room, after, same, capacity', reserved, length, -⟩
  · rw [registered] at same
    cases same
    exact h
  · rw [registered] at same
    cases same
  · rw [registered] at same
    cases same
    refine ⟨capacity'.trans h.size, ?_, ?_⟩
    · rw [reserved, length, h.reserved]
    · omega

/-- Unregistering a key frees its place, and no other. -/
theorem Counted.unregister (h : Counted capacity r) (k : Key) :
    Counted capacity (r.unregister k).2 ∧
      (r.unregister k).2.reserved + (r.contains k).toNat = r.reserved := by
  have bounded := h.bounded
  have reserved := h.reserved
  unfold Registry.unregister
  by_cases watched : r.contains k = true
  · have fewer := length_filter_ne watched
    have length : ((r.entries.filter (·.1 ≠ k)).map (·.1)).length + 1 = r.keys.length := by
      rw [List.length_map]
      exact fewer
    rw [if_pos watched, watched]
    refine ⟨⟨h.size, ?_, ?_⟩, ?_⟩
    · show r.reserved - 1 = ((r.entries.filter (·.1 ≠ k)).map (·.1)).length
      omega
    · show ((r.entries.filter (·.1 ≠ k)).map (·.1)).length ≤ capacity
      omega
    · show r.reserved - 1 + 1 = r.reserved
      omega
  · have absent : r.contains k = false := by simpa using watched
    rw [if_neg watched, absent]
    exact ⟨h, rfl⟩

theorem keys_of_update {α : Type} {f : Pressure → α × Pressure} {r' : Registry} {a : α}
    (h : r.update k f = some (a, r')) : r'.keys = r.keys := by
  obtain ⟨p, -, same⟩ := Option.map_eq_some_iff.1 h
  cases same
  exact map_fst_replace k (f p).2 r.entries

theorem Counted.of_update (h : Counted capacity r) {α : Type} {f : Pressure → α × Pressure}
    {r' : Registry} {a : α} (updated : r.update k f = some (a, r')) : Counted capacity r' := by
  obtain ⟨capacity', reserved⟩ := numbers_of_update updated
  have keys := keys_of_update updated
  exact ⟨capacity'.trans h.size, by rw [reserved, keys, h.reserved], keys ▸ h.bounded⟩

end Counted

end Registry

namespace Tenancy

/-- Run operations in order. -/
def run : List Op → Tenancy → List Answer × Tenancy
  | [], t => ([], t)
  | op :: ops, t =>
    let (answer, t) := t.step op
    let (answers, t) := run ops t
    (answer :: answers, t)

/-- The operations that say which keys there are. -/
def Op.isLifecycle : Op → Bool
  | register _ | unregister _ => true
  | _ => false

/-! ### What the operations do to a registry -/

section Step

variable {capacity : Nat} {t : Tenancy}

/-- An operation that neither registers nor unregisters updates the registry at one key, if it
touches the registry at all. -/
theorem registry_of_not_isLifecycle {op : Op} (other : op.isLifecycle = false) (t : Tenancy) :
    (t.step op).2.registry = t.registry ∨
      ∃ (k : Key) (α : Type) (f : Pressure → α × Pressure) (a : α),
        t.registry.update k f = some (a, (t.step op).2.registry) := by
  cases op with
  | register k => cases other
  | unregister k => cases other
  | clearGate k =>
    rw [step, Registry.clearGate]
    rcases updated : t.registry.update k Pressure.clearGate with _ | ⟨held, r⟩
    · exact .inl rfl
    · exact .inr ⟨k, Bool, Pressure.clearGate, held, updated⟩
  | step k s =>
    rw [step]
    rcases updated : t.registry.update k (Pressure.step s) with _ | ⟨a, r⟩
    · exact .inl rfl
    · exact .inr ⟨k, Pressure.Answer, Pressure.step s, a, updated⟩
  | hold k =>
    rw [step]
    rcases t.hold k with _ | h <;> exact .inl rfl
  | stepThrough h s =>
    rw [step, updateThrough]
    rcases (t.past h.key)[h.term]? with _ | p
    · rcases updated : t.registry.update h.key (Pressure.step s) with _ | ⟨a, r⟩
      · exact .inl rfl
      · exact .inr ⟨h.key, Pressure.Answer, Pressure.step s, a, updated⟩
    · exact .inl rfl

theorem keys_of_not_isLifecycle {op : Op} (other : op.isLifecycle = false) (t : Tenancy) :
    (t.step op).2.registry.keys = t.registry.keys ∧
      (t.step op).2.registry.reserved = t.registry.reserved := by
  rcases registry_of_not_isLifecycle other t with same | ⟨k, α, f, a, updated⟩
  · rw [same]
    exact ⟨rfl, rfl⟩
  · exact ⟨Registry.keys_of_update updated, (Registry.numbers_of_update updated).2⟩

theorem counted_step (h : Registry.Counted capacity t.registry) (op : Op) :
    Registry.Counted capacity (t.step op).2.registry := by
  by_cases lifecycle : op.isLifecycle = true
  · cases op with
    | register k =>
      rw [step]
      rcases registered : t.registry.register k with fault | ⟨isNew, r⟩
      · exact h
      · exact h.of_register registered
    | unregister k => exact (h.unregister k).1
    | _ => cases lifecycle
  · rcases registry_of_not_isLifecycle (by simpa using lifecycle) t with
      same | ⟨k, α, f, a, updated⟩
    · rw [same]
      exact h
    · exact h.of_update updated

theorem counted_run (ops : List Op) (h : Registry.Counted capacity t.registry) :
    Registry.Counted capacity (run ops t).2.registry := by
  induction ops generalizing t with
  | nil => exact h
  | cons op ops ih => exact ih (counted_step h op)

/-- On a key that is not registered there is nothing to act on. -/
theorem step_of_absent {k : Key} (absent : t.registry.contains k = false) :
    t.step (.clearGate k) = (.refused (.unknownKey k), t) ∧
      ∀ s, t.step (.step k s) = (.absent, t) := by
  have missing : t.registry.find? k = none := by simpa [Registry.contains] using absent
  constructor
  · rw [step, Registry.clearGate, Registry.update_eq_none_iff.2 missing]
  · intro s
    rw [step, Registry.update_eq_none_iff.2 missing]

end Step

/-! ### The map -/

/-- The registry is a map of at most `capacity` keys, listed in order, and registering and
unregistering are the ways to change which keys there are. -/
structure IsBoundedMap (capacity : Nat) (t : Tenancy) : Prop where
  reserved : t.registry.reserved = t.registry.keys.length
  bounded : t.registry.keys.length ≤ capacity
  sorted : t.registry.keys.Pairwise Key.Precedes
  mem_keys : ∀ k, k ∈ t.registry.keys ↔ t.registry.contains k = true
  /-- Keys that are listed in any order, be it repeatedly, are sorted into this one. -/
  listed : ∀ keys, (∀ k, k ∈ keys ↔ t.registry.contains k = true) →
    Key.sortDistinct keys = t.registry.keys
  /-- So are the statistics. -/
  sorted_stats : ∀ listing : List Stats, listing.Perm t.registry.entries →
    (listing.mergeSort fun a b => a.1 ≤ b.1) = t.registry.entries
  stats : t.registry.entries.map some = t.registry.keys.map (t.registry.stats? ·)
  refused : ∀ k, (t.step (.register k)).1 = .refused (.registryFull capacity) ↔
    t.registry.contains k = false ∧ t.registry.keys.length = capacity
  taken : ∀ k, (t.step (.register k)).1 = .flag true ↔
    t.registry.contains k = false ∧ t.registry.keys.length < capacity
  known : ∀ k, (t.step (.register k)).1 = .flag false ↔ t.registry.contains k = true
  register : ∀ k, if (t.step (.register k)).1 = .flag true then
      ∀ k', (t.step (.register k)).2.registry.find? k' =
        if k' = k then some .zero else t.registry.find? k'
    else (t.step (.register k)).2 = t
  unregistered : ∀ k, (t.step (.unregister k)).1 = .flag (t.registry.contains k)
  freed : ∀ k, (t.step (.unregister k)).2.registry.reserved + (t.registry.contains k).toNat =
    t.registry.reserved
  unregister : ∀ k k', (t.step (.unregister k)).2.registry.find? k' =
    if k' = k then none else t.registry.find? k'
  others : ∀ op : Op, op.isLifecycle = false →
    (t.step op).2.registry.keys = t.registry.keys ∧
      (t.step op).2.registry.reserved = t.registry.reserved
  unwatched : ∀ k, t.registry.contains k = false →
    t.step (.clearGate k) = (.refused (.unknownKey k), t) ∧ ∀ s, t.step (.step k s) = (.absent, t)

theorem isBoundedMap_of_counted {capacity : Nat} {t : Tenancy}
    (h : Registry.Counted capacity t.registry) : IsBoundedMap capacity t where
  reserved := h.reserved
  bounded := h.bounded
  sorted := t.registry.sorted_keys
  mem_keys := t.registry.mem_keys_iff
  listed _ same := Registry.sortDistinct_eq_keys fun k =>
    (same k).trans (t.registry.mem_keys_iff k).symm
  sorted_stats _ same := Registry.mergeSort_of_perm same
  stats := t.registry.map_some_entries
  refused k := by
    rcases h.register_cases k with ⟨watched, same⟩ | ⟨absent, full, same⟩ |
      ⟨absent, room, r, same, -⟩
    · simp [step, same, watched]
    · simp [step, same, absent, full]
    · simp [step, same, absent, Nat.ne_of_lt room]
  taken k := by
    rcases h.register_cases k with ⟨watched, same⟩ | ⟨absent, full, same⟩ |
      ⟨absent, room, r, same, -⟩
    · simp [step, same, watched]
    · simp [step, same, absent, full]
    · simp [step, same, absent, room]
  known k := by
    rcases h.register_cases k with ⟨watched, same⟩ | ⟨absent, full, same⟩ |
      ⟨absent, room, r, same, -⟩
    · simp [step, same, watched]
    · simp [step, same, absent]
    · simp [step, same, absent]
  register k := by
    rcases h.register_cases k with ⟨watched, same⟩ | ⟨absent, full, same⟩ |
      ⟨absent, room, r, same, -, -, -, find⟩
    · simp [step, same]
    · simp [step, same]
    · simpa [step, same] using find
  unregistered k := congrArg Answer.flag (t.registry.fst_unregister k)
  freed k := (h.unregister k).2
  unregister k k' := Registry.find?_unregister k k' t.registry
  others _ other := keys_of_not_isLifecycle other t
  unwatched _ absent := step_of_absent absent

/-- After any operations, those through handles included, the registry is a map of limited size:
keys and their statistics are listed in order, as many places are taken as keys are registered, a
key is refused exactly if all places are taken by others, and nothing but registering and
unregistering changes which keys there are. -/
theorem isBoundedMap_run (capacity : Nat) (ops : List Op) :
    IsBoundedMap capacity (run ops (.empty capacity)).2 :=
  isBoundedMap_of_counted (counted_run ops (Registry.counted_empty capacity))

end Tenancy

end ScaleWatch
