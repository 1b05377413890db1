import ScaleWatch.Pressure

/-!
# The registry of watched keys

Only registered keys are watched. The registry keeps the pressure on each of them, in the order of
the keys, and takes no more keys than its capacity. Registering starts a key from zero; nothing
but registering and unregistering changes which keys there are.
-/

namespace ScaleWatch

/-- A key and the pressure on it, at one moment. -/
abbrev Stats := Key × Pressure

structure Registry where
  capacity : Nat
  /-- Places taken; a new key needs a free one. -/
  reserved : Nat
  entries : List Stats
  sorted : entries.Pairwise fun a b => a.1 < b.1

namespace Registry

def empty (capacity : Nat) : Registry :=
  ⟨capacity, 0, [], .nil⟩

/-! ### Entries in order -/

/-- Put a key into its place; an entry of the same key is replaced. -/
def place (k : Key) (p : Pressure) : List Stats → List Stats
  | [] => [(k, p)]
  | e :: rest =>
    if k < e.1 then (k, p) :: e :: rest
    else if e.1 < k then e :: place k p rest
    else (k, p) :: rest

/-- Replace the pressure on one key. -/
def replace (k : Key) (p : Pressure) (entries : List Stats) : List Stats :=
  entries.map fun e => if e.1 = k then (k, p) else e

theorem mem_place {k : Key} {p : Pressure} {entries : List Stats} {e : Stats}
    (h : e ∈ place k p entries) : e = (k, p) ∨ e ∈ entries := by
  induction entries with
  | nil => simpa [place] using h
  | cons first rest ih =>
    simp only [place] at h
    split at h
    · simpa using h
    · split at h
      · rcases List.mem_cons.1 h with rfl | inside
        · simp
        · rcases ih inside with rfl | old <;> simp_all
      · rcases List.mem_cons.1 h with rfl | old <;> simp_all

theorem sorted_place {k : Key} {p : Pressure} {entries : List Stats}
    (h : entries.Pairwise fun a b => a.1 < b.1) :
    (place k p entries).Pairwise fun a b => a.1 < b.1 := by
  induction entries with
  | nil => simp [place]
  | cons first rest ih =>
    obtain ⟨least, tail⟩ := List.pairwise_cons.1 h
    simp only [place, Key.lt_iff_rank] at *
    split
    next before =>
      refine List.pairwise_cons.2 ⟨fun e he => ?_, h⟩
      rcases List.mem_cons.1 he with rfl | he
      · exact before
      · exact Nat.lt_trans before (least e he)
    next notBefore =>
      split
      next after =>
        refine List.pairwise_cons.2 ⟨fun e he => ?_, ih tail⟩
        rcases mem_place he with rfl | he
        · exact after
        · exact least e he
      next notAfter =>
        have same : first.1.rank = k.rank := by omega
        exact List.pairwise_cons.2 ⟨fun e he => same ▸ least e he, tail⟩

theorem sorted_replace {k : Key} {p : Pressure} {entries : List Stats}
    (h : entries.Pairwise fun a b => a.1 < b.1) :
    (replace k p entries).Pairwise fun a b => a.1 < b.1 := by
  refine List.pairwise_map.2 (h.imp fun {a b} less => ?_)
  split <;> split <;> simp_all

/-! ### Reading -/

def size (r : Registry) : Nat :=
  r.entries.length

def isEmpty (r : Registry) : Bool :=
  r.entries.isEmpty

def find? (k : Key) (r : Registry) : Option Pressure :=
  r.entries.lookup k

def contains (k : Key) (r : Registry) : Bool :=
  (r.find? k).isSome

def stats? (k : Key) (r : Registry) : Option Stats :=
  (r.find? k).map (k, ·)

def keys (r : Registry) : List Key :=
  r.entries.map (·.1)

/-! ### Registering -/

/-- Watch a key from zero. The answer is whether it is new; a key that is watched already keeps
its pressure. -/
def register (k : Key) (r : Registry) : Except Fault (Bool × Registry) :=
  if r.contains k then .ok (false, r)
  else if r.reserved < r.capacity then
    .ok (true, { r with
      reserved := r.reserved + 1
      entries := place k .zero r.entries
      sorted := sorted_place r.sorted })
  else .error (.registryFull r.capacity)

/-- Stop watching a key and forget the pressure on it. The answer is whether it was watched. -/
def unregister (k : Key) (r : Registry) : Bool × Registry :=
  if r.contains k then
    (true, { r with
      reserved := r.reserved - 1
      entries := r.entries.filter (·.1 ≠ k)
      sorted := r.sorted.filter _ })
  else (false, r)

/-! ### Acting on a key -/

/-- Let something happen to the pressure on a key, if the key is watched. -/
def update (k : Key) (f : Pressure → α × Pressure) (r : Registry) : Option (α × Registry) :=
  (r.find? k).map fun p =>
    ((f p).1, { r with
      entries := replace k (f p).2 r.entries
      sorted := sorted_replace r.sorted })

/-- Release the gate of a key; the answer is whether it was held. -/
def clearGate (k : Key) (r : Registry) : Except Fault (Bool × Registry) :=
  match r.update k Pressure.clearGate with
  | some (held, after) => .ok (held, after)
  | none => .error (.unknownKey k)

end Registry

end ScaleWatch
