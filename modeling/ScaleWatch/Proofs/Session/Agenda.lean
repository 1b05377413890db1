import Mathlib.Data.List.Induction
import ScaleWatch.Proofs.Session.ReadyWork

/-!
# One deadline a key

An agenda is a session whose consumer schedules the release of gates in the simplest way there is:
it keeps at most one deadline for each key.  Taking a signal moves the deadline of its key to one
delay from now, and a deadline that has come releases the gate of its key, if the key is still
registered, and is crossed out.  There are no timers and no generations.
-/

namespace ScaleWatch

structure Agenda where
  /-- The session; its consumer prints signals and schedules nothing. -/
  session : Session
  delay : Nat
  deadlines : Key → Option Nat

namespace Agenda

def new (m : Monitor) (delay : Nat) : Agenda :=
  ⟨.new m true none, delay, fun _ => none⟩

/-- Take note of a signal that was taken: whatever was noted for its key before is overwritten. -/
def note (k : Key) (a : Agenda) : Agenda :=
  { a with
    deadlines := fun k' => if k' = k then some (a.session.now + a.delay) else a.deadlines k' }

def isDue (k : Key) (a : Agenda) : Bool :=
  (a.deadlines k).any (· ≤ a.session.now)

/-- Release the gates of the registered keys whose deadline has come, and cross out all deadlines
that have come. -/
def expire (a : Agenda) : Agenda :=
  { a with
    session := { a.session with
      monitor := (a.session.monitor.registry.keys.filter (a.isDue ·)).foldl
        (fun m k => (m.clearGate k).2) a.session.monitor }
    deadlines := fun k => (a.deadlines k).filter (a.session.now < ·) }

/-- Let the consumer take what is queued, and then let the deadlines that have come expire. -/
def settle (a : Agenda) : Agenda :=
  let (signals, session) := a.session.consume
  (signals.foldl (fun a s => note s.key a) { a with session }).expire

def step (st : Session.Step) (a : Agenda) : Agenda :=
  settle { a with session := (a.session.act st).2.2 }

def run (steps : List Session.Step) (a : Agenda) : Agenda :=
  steps.foldl (fun a st => a.step st) a

/-! ### Noting -/

/-- The deadlines after signals were taken at one moment, when each is due at `due`. -/
def noted (deadlines : Key → Option Nat) (due : Nat) (signals : List Signal) (k : Key) :
    Option Nat :=
  if k ∈ signals.map (·.key) then some due else deadlines k

theorem noted_concat (deadlines : Key → Option Nat) (due : Nat) (signals : List Signal) (s : Signal)
    (k : Key) :
    noted deadlines due (signals ++ [s]) k =
      if k = s.key then some due else noted deadlines due signals k := by
  unfold noted
  by_cases h : k = s.key <;> simp [h]

theorem foldl_note (signals : List Signal) (a : Agenda) :
    signals.foldl (fun a s => note s.key a) a =
      { a with deadlines := noted a.deadlines (a.session.now + a.delay) signals } := by
  induction signals using List.reverseRecOn with
  | nil => rfl
  | append_singleton signals s ih =>
    rw [List.foldl_append, ih, List.foldl_cons, List.foldl_nil, note]
    congr 1
    exact funext fun k => (noted_concat _ _ _ _ k).symm

/-! ### Consuming and expiring -/

theorem consumeUpTo_of_no_delay (limit : Nat) {s : Session} {running : Bool}
    {generations : Key → Option Nat} (h : s.consumer = some ⟨none, running, generations⟩) :
    Session.consumeUpTo limit s =
      ((Channel.drainUpTo limit s.monitor.channel).1,
        { s with monitor := { s.monitor with
          channel := (Channel.drainUpTo limit s.monitor.channel).2 } }) := by
  induction limit generalizing s with
  | zero => rfl
  | succ limit ih =>
    rw [Session.consumeUpTo_succ, Channel.drainUpTo]
    rcases s.monitor.channel.tryRecv with _ | ⟨signal, channel⟩
    · rfl
    · have same := Session.schedule_of_no_delay
        (s := { s with monitor := { s.monitor with channel } }) h signal.key
      simp only [same]
      rw [ih (s := { s with monitor := { s.monitor with channel } }) h]

/-- What is left of a pressure when its gate is released. -/
def released (p : Pressure) : Pressure :=
  { p with gated := false }

theorem released_released (p : Pressure) : released (released p) = released p :=
  rfl

theorem clearGate_eq (k : Key) (m : Monitor) :
    ∃ registry : Registry, (m.clearGate k).2 = { m with registry } ∧
      registry.capacity = m.registry.capacity ∧ registry.reserved = m.registry.reserved ∧
      ∀ k', registry.find? k' =
        if k' = k then (m.registry.find? k').map released else m.registry.find? k' := by
  obtain ⟨capacity, reserved⟩ := Registry.numbers_elim_update k Pressure.clearGate m.registry
  exact ⟨_, Monitor.clearGate_eq_elim k m, capacity, reserved, fun k' =>
    Registry.find?_elim_update k k' Pressure.clearGate m.registry⟩

theorem foldl_clearGate (keys : List Key) (m : Monitor) :
    ∃ registry : Registry, keys.foldl (fun m k => (m.clearGate k).2) m = { m with registry } ∧
      registry.capacity = m.registry.capacity ∧ registry.reserved = m.registry.reserved ∧
      ∀ k', registry.find? k' =
        if k' ∈ keys then (m.registry.find? k').map released else m.registry.find? k' := by
  induction keys generalizing m with
  | nil => exact ⟨m.registry, rfl, rfl, rfl, fun k' => by simp⟩
  | cons k rest ih =>
    obtain ⟨first, hfirst, capacity₁, reserved₁, find₁⟩ := clearGate_eq k m
    obtain ⟨final, hfinal, capacity₂, reserved₂, find₂⟩ := ih { m with registry := first }
    refine ⟨final, ?_, capacity₂.trans capacity₁, reserved₂.trans reserved₁, fun k' => ?_⟩
    · rw [List.foldl_cons, hfirst, hfinal]
    · rw [find₂, find₁]
      by_cases same : k' = k <;> by_cases later : k' ∈ rest <;>
        simp [same, later, Function.comp_def, released_released]

theorem expire_eq (a : Agenda) :
    ∃ registry : Registry, a.expire.session =
        { a.session with monitor := { a.session.monitor with registry } } ∧
      registry.capacity = a.session.monitor.registry.capacity ∧
      registry.reserved = a.session.monitor.registry.reserved ∧
      ∀ k, registry.find? k =
        if a.isDue k then (a.session.monitor.registry.find? k).map released
        else a.session.monitor.registry.find? k := by
  obtain ⟨registry, same, capacity, reserved, find⟩ := foldl_clearGate
    (a.session.monitor.registry.keys.filter (a.isDue ·)) a.session.monitor
  refine ⟨registry, by rw [expire, same], capacity, reserved, fun k => ?_⟩
  rw [find]
  rcases h : a.session.monitor.registry.find? k with _ | p
  · simp
  · have entry := (Registry.mem_iff_lookup a.session.monitor.registry.sorted (k, p)).2 h
    have registered : k ∈ a.session.monitor.registry.keys := List.mem_map.2 ⟨_, entry, rfl⟩
    simp [registered]

end Agenda

end ScaleWatch
