import ScaleWatch.Http.Api
import ScaleWatch.Proofs.Monitor.Separation

/-!
# What a request does to the monitor

The control surface has no way of its own to change a monitor.  A request stands for operations of
the monitor, most often for none or one, and for one an event when events are posted
(`operations`); the monitor it leaves is the one that these leave (`snd_handle`).  So what holds of
all runs of operations holds of whatever is asked for over HTTP.
-/

namespace ScaleWatch.Http

/-- What a part of a request stands for, once it is read; a part that is refused stands for
nothing. -/
def onceRead {α : Type} (part : Except Response α) (f : α → List Monitor.Op) : List Monitor.Op :=
  match part with
  | .ok a => f a
  | .error _ => []

/-- The operations that a method of a resource stands for. -/
def operationsOf (worker : Nat) (r : Request) (resource : Resource) (method : Method) :
    List Monitor.Op :=
  match resource, method with
  | .key k, .post => onceRead (readKey k) fun k => [.register k]
  | .key k, .delete => onceRead (readKey k) fun k => [.unregister k]
  | .gate k, .delete => onceRead (readKey k) fun k => [.clearGate k]
  | .thresholds, .put => onceRead (r.read Wire.bounds) fun b => [.store b]
  | .slot i, .put =>
    onceRead (readSlot i) fun i => onceRead (r.read Wire.slotValue) fun v => [.writeSlot i v]
  | .events, .post =>
    onceRead (r.read (.list Wire.event)) fun events =>
      events.map fun e => .observe worker (.event e)
  | _, _ => []

/-- The operations on the monitor that a request stands for. -/
def operations (worker : Nat) (r : Request) : List Monitor.Op :=
  match Resource.ofPath? r.path with
  | none => []
  | some resource => operationsOf worker r resource r.method

theorem forall_mem_onceRead {α : Type} {P : Monitor.Op → Prop} {part : Except Response α}
    {f : α → List Monitor.Op} (h : ∀ a, ∀ op ∈ f a, P op) : ∀ op ∈ onceRead part f, P op := by
  cases part with
  | ok a => exact h a
  | error response => simp [onceRead]

/-- Nobody asks for the stream over HTTP. -/
theorem direct_operations (worker : Nat) (r : Request) :
    ∀ op ∈ operations worker r, op.isOnStream = false := by
  rw [operations]
  rcases Resource.ofPath? r.path with _ | resource
  · simp
  simp only [operationsOf]
  split
  · exact forall_mem_onceRead (by simp [Monitor.Op.isOnStream])
  · exact forall_mem_onceRead (by simp [Monitor.Op.isOnStream])
  · exact forall_mem_onceRead (by simp [Monitor.Op.isOnStream])
  · exact forall_mem_onceRead (by simp [Monitor.Op.isOnStream])
  · exact forall_mem_onceRead fun i => forall_mem_onceRead (by simp [Monitor.Op.isOnStream])
  · exact forall_mem_onceRead (by simp [Monitor.Op.isOnStream])
  · simp

theorem snd_withPart {α : Type} {part : Except Response α} {f : α → Monitor → Response × Monitor}
    {g : α → List Monitor.Op} {m : Monitor} (same : ∀ a, (f a m).2 = (Monitor.run (g a) m).2) :
    (withPart part f m).2 = (Monitor.run (onceRead part g) m).2 := by
  cases part with
  | ok a => exact same a
  | error response => rfl

theorem snd_registerKey (k : Key) (m : Monitor) : (registerKey k m).2 = (m.register k).2 := by
  unfold registerKey
  rcases m.register k with ⟨_ | _ | _, after⟩ <;> rfl

theorem snd_unregisterKey (k : Key) (m : Monitor) :
    (unregisterKey k m).2 = (m.unregister k).2 := by
  unfold unregisterKey
  rcases m.unregister k with ⟨_ | _, after⟩ <;> rfl

theorem snd_clearGate (k : Key) (m : Monitor) : (clearGate k m).2 = (m.clearGate k).2 := by
  unfold clearGate
  rcases m.clearGate k with ⟨_ | _, after⟩ <;> rfl

theorem snd_putThresholds (b : Bounds) (m : Monitor) :
    (putThresholds b m).2 = (m.afterWrite (m.store b)).2 := by
  unfold putThresholds
  cases m.store b <;> rfl

theorem snd_putSlot (index : Nat) (value : UInt32) (m : Monitor) :
    (putSlot index value m).2 = (m.afterWrite (m.writeSlot index value)).2 := by
  unfold putSlot
  cases m.writeSlot index value <;> rfl

theorem snd_observeAll (worker : Nat) (events : List Event) (m : Monitor) :
    (observeAll worker events m).2 =
      (Monitor.run (events.map fun e => .observe worker (.event e)) m).2 := by
  induction events generalizing m with
  | nil => rfl
  | cons e rest ih => exact ih (m.observe worker (.event e)).2

theorem snd_serve (worker : Nat) (r : Request) (resource : Resource) (method : Method)
    (m : Monitor) :
    (serve worker r resource method m).2 =
      (Monitor.run (operationsOf worker r resource method) m).2 := by
  have nothing : ∀ k : List Char, (withPart (readKey k) (fun k m => (getKey k m, m)) m).2 = m := by
    intro k
    cases readKey k <;> rfl
  cases resource with
  | keys => cases method <;> rfl
  | stats => cases method <;> rfl
  | metrics => cases method <;> rfl
  | key k =>
    cases method with
    | get => exact nothing k
    | post => exact snd_withPart fun k => snd_registerKey k m
    | delete => exact snd_withPart fun k => snd_unregisterKey k m
    | _ => rfl
  | gate k =>
    cases method with
    | delete => exact snd_withPart fun k => snd_clearGate k m
    | _ => rfl
  | thresholds =>
    cases method with
    | put => exact snd_withPart fun b => snd_putThresholds b m
    | _ => rfl
  | slot i =>
    cases method with
    | put => exact snd_withPart fun i => snd_withPart fun v => snd_putSlot i v m
    | _ => rfl
  | events =>
    cases method with
    | post => exact snd_withPart fun events => snd_observeAll worker events m
    | _ => rfl

/-- A request leaves the monitor that its operations leave. -/
theorem snd_handle (worker : Nat) (r : Request) (m : Monitor) :
    (handle worker r m).2 = (Monitor.run (operations worker r) m).2 := by
  unfold handle operations
  rcases Resource.ofPath? r.path with _ | resource
  · rfl
  by_cases head : r.method = .head
  · -- HEAD is served as GET is, and neither stands for an operation
    have nothing : operationsOf worker r resource .head = operationsOf worker r resource .get := by
      cases resource <;> rfl
    simp only [head, if_true, nothing]
    exact snd_serve worker r resource .get m
  · simp only [head, if_false]
    exact snd_serve worker r resource r.method m

end ScaleWatch.Http
