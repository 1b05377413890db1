import ScaleWatch.Registry

/-!
# Handles on registrations

A caller may take a handle on the pressure of a registered key and act through it later. A handle
belongs to one registration: while that is current, the handle and the registry act on the same
pressure; once it has ended, the handle keeps the pressure that was left behind, and the registry
never sees it again. A `Tenancy` is a registry together with what was left behind, registration by
registration.
-/

namespace ScaleWatch

structure Tenancy where
  registry : Registry
  /-- What the ended registrations of a key left behind, oldest first. -/
  past : Key → List Pressure

namespace Tenancy

/-- A handle names a registration: the key and how many registrations of it had ended before. -/
structure Handle where
  key : Key
  term : Nat
  deriving DecidableEq

def empty (capacity : Nat) : Tenancy :=
  ⟨.empty capacity, fun _ => []⟩

def hold (k : Key) (t : Tenancy) : Option Handle :=
  if t.registry.contains k then some ⟨k, (t.past k).length⟩ else none

/-- End the registration of a key, leaving its pressure to the handles on it. -/
def unregister (k : Key) (t : Tenancy) : Bool × Tenancy :=
  let (was, registry) := t.registry.unregister k
  (was, ⟨registry, fun k' => if k' = k then t.past k ++ (t.registry.find? k).toList else t.past k'⟩)

/-- Act through a handle: on the registry while its registration is current, afterwards on what
it left behind. -/
def updateThrough (h : Handle) (f : Pressure → α × Pressure) (t : Tenancy) :
    Option (α × Tenancy) :=
  match (t.past h.key)[h.term]? with
  | some p =>
    some ((f p).1, { t with
      past := fun k => if k = h.key then (t.past k).set h.term (f p).2 else t.past k })
  | none => (t.registry.update h.key f).map fun (a, registry) => (a, { t with registry })

/-- The pressure that a handle sees. -/
def seenThrough (h : Handle) (t : Tenancy) : Option Pressure :=
  match (t.past h.key)[h.term]? with
  | some p => some p
  | none => t.registry.find? h.key

/-! ### Operations -/

inductive Op where
  | register (k : Key)
  | unregister (k : Key)
  | clearGate (k : Key)
  | step (k : Key) (s : Pressure.Step)
  | hold (k : Key)
  | stepThrough (h : Handle) (s : Pressure.Step)

inductive Answer where
  | refused (fault : Fault)
  /-- The key is not registered, so there is nothing to act on. -/
  | absent
  | flag (b : Bool)
  | stepped (answer : Pressure.Answer) (after : Option Pressure)
  | held (h : Handle)
  deriving DecidableEq

def step (op : Op) (t : Tenancy) : Answer × Tenancy :=
  match op with
  | .register k =>
    match t.registry.register k with
    | .ok (isNew, registry) => (.flag isNew, { t with registry })
    | .error fault => (.refused fault, t)
  | .unregister k =>
    let (was, t) := t.unregister k
    (.flag was, t)
  | .clearGate k =>
    match t.registry.clearGate k with
    | .ok (held, registry) => (.flag held, { t with registry })
    | .error fault => (.refused fault, t)
  | .step k s =>
    match t.registry.update k (Pressure.step s) with
    | some (a, registry) => (.stepped a (registry.find? k), { t with registry })
    | none => (.absent, t)
  | .hold k =>
    match t.hold k with
    | some h => (.held h, t)
    | none => (.absent, t)
  | .stepThrough h s =>
    match t.updateThrough h (Pressure.step s) with
    | some (a, after) => (.stepped a (after.seenThrough h), after)
    | none => (.absent, t)

end Tenancy

end ScaleWatch
