import ScaleWatch.Proofs.Http.Operations

/-!
# Requests that change nothing

A request is refused in many places: no resource has its path, the resource does not know its
method, a part of it cannot be read, or the monitor declines what it asks for.  Wherever that
happens, and also when a request only reads, the monitor is left as it was, except that a
registration that finds no place is counted (`refusals_and_reads_keep`).

Each layer has a rule here.  A part that cannot be read is answered before anything is done
(`allOrNothing_withPart`), and a handler either succeeds or leaves the monitor alone
(`AllOrNothing`).
-/

namespace ScaleWatch.Http

/-- The monitor is as it was, except that a status of 503 is counted as a rejected registration. -/
def Keeps (m : Monitor) (result : Response × Monitor) : Prop :=
  result.2 = { m with metrics := { m.metrics with
    registrationsRejected :=
      m.metrics.registrationsRejected + if result.1.status = 503 then 1 else 0 } }

/-- The request succeeds, or the monitor is as it was. -/
def AllOrNothing (m : Monitor) (result : Response × Monitor) : Prop :=
  result.1.status < 400 ∨ Keeps m result

/-- A refusal that has nothing to do with the places of the registry. -/
def Response.IsRefusal (r : Response) : Prop :=
  400 ≤ r.status ∧ r.status ≠ 503

section Keeps

variable {m : Monitor} {answer : Response}

theorem keeps_iff (other : answer.status ≠ 503) (after : Monitor) :
    Keeps m (answer, after) ↔ after = m := by
  simp [Keeps, other]

theorem keeps_of_status (other : answer.status ≠ 503) : Keeps m (answer, m) :=
  (keeps_iff other m).2 rfl

theorem allOrNothing_of_success (h : answer.status < 400) (after : Monitor) :
    AllOrNothing m (answer, after) :=
  .inl h

theorem Response.IsRefusal.keeps (h : answer.IsRefusal) : AllOrNothing m (answer, m) :=
  .inr (keeps_of_status h.2)

end Keeps

/-! ### Parts that cannot be read -/

theorem isRefusal_error (reason : String) : (Response.error 400 reason).IsRefusal :=
  ⟨Nat.le_refl 400, by simp [Response.error]⟩

theorem isRefusal_statusOf (refusal : Json.Refusal) :
    (Response.refusal (statusOf refusal)).IsRefusal := by
  cases refusal <;> exact ⟨by decide, by decide⟩

theorem isRefusal_of_read {α : Type} {r : Request} {shape : Json.Shape α} {answer : Response}
    (h : r.read shape = .error answer) : answer.IsRefusal := by
  unfold Request.read at h
  split at h
  · cases h
    exact ⟨by decide, by decide⟩
  · split at h
    · cases h
      exact ⟨by decide, by decide⟩
    · split at h
      · cases h
      · cases h
        exact isRefusal_statusOf _

theorem isRefusal_of_readKey {segment : List Char} {answer : Response}
    (h : readKey segment = .error answer) : answer.IsRefusal := by
  unfold readKey at h
  split at h
  · cases h
    exact ⟨by decide, by decide⟩
  · split at h
    · cases h
    · cases h
      exact isRefusal_error _

theorem isRefusal_of_readSlot {segment : List Char} {answer : Response}
    (h : readSlot segment = .error answer) : answer.IsRefusal := by
  unfold readSlot at h
  split at h
  · cases h
  · cases h
    exact ⟨by decide, by decide⟩

/-- A part that is refused settles the answer, and nothing is done. -/
theorem allOrNothing_withPart {α : Type} {part : Except Response α}
    {f : α → Monitor → Response × Monitor} {m : Monitor}
    (unread : ∀ answer, part = .error answer → answer.IsRefusal)
    (done : ∀ a, AllOrNothing m (f a m)) : AllOrNothing m (withPart part f m) := by
  cases part with
  | ok a => exact done a
  | error answer => exact (unread answer rfl).keeps

/-! ### What a handler declines -/

theorem allOrNothing_registerKey (k : Key) (m : Monitor) : AllOrNothing m (registerKey k m) := by
  unfold registerKey Monitor.register Registry.register
  by_cases watched : m.registry.contains k = true
  · rw [if_pos watched]
    exact allOrNothing_of_success (by simp [Response.ok]) _
  · by_cases room : m.registry.reserved < m.registry.capacity
    · rw [if_neg watched, if_pos room]
      exact allOrNothing_of_success (by simp [Response.ok]) _
    · rw [if_neg watched, if_neg room]
      exact .inr rfl

theorem allOrNothing_unregisterKey (k : Key) (m : Monitor) :
    AllOrNothing m (unregisterKey k m) := by
  unfold unregisterKey Monitor.unregister Registry.unregister
  by_cases watched : m.registry.contains k = true
  · rw [if_pos watched]
    exact allOrNothing_of_success (by simp [Response.ok]) _
  · rw [if_neg watched]
    exact .inr (keeps_of_status (by simp [notRegistered, Response.error]))

theorem allOrNothing_clearGate (k : Key) (m : Monitor) : AllOrNothing m (clearGate k m) := by
  unfold clearGate Monitor.clearGate Registry.clearGate
  rcases m.registry.update k Pressure.clearGate with _ | ⟨held, registry⟩
  · exact .inr (keeps_of_status (by simp [refused, Response.error]))
  · exact allOrNothing_of_success (by simp [Response.ok]) _

theorem status_refused_of_check {b : Bounds} {fault : Fault} (h : b.check = .error fault) :
    (refused fault).status = 400 := by
  unfold Bounds.check at h
  split at h
  · cases h
    rfl
  · split at h
    · cases h
      rfl
    · cases h

/-- Bounds that are not consistent are refused. -/
theorem putThresholds_cases (b : Bounds) (m : Monitor) :
    (b.Consistent ∧ (putThresholds b m).1.status = 200) ∨
      ¬b.Consistent ∧ (putThresholds b m).1.status = 400 ∧ (putThresholds b m).2 = m := by
  unfold putThresholds Monitor.store Bounds.Slots.store
  rcases checked : b.check with fault | ⟨⟩
  · refine .inr ⟨fun consistent => ?_, status_refused_of_check checked, rfl⟩
    rw [Bounds.check_eq_ok_iff.2 consistent] at checked
    cases checked
  · exact .inl ⟨Bounds.check_eq_ok_iff.1 checked, rfl⟩

/-- A slot that there is not is refused. -/
theorem putSlot_cases (index : Nat) (value : UInt32) (m : Monitor) :
    (index ≤ 2 ∧ (putSlot index value m).1.status = 200) ∨
      ¬index ≤ 2 ∧ (putSlot index value m).1.status = 400 ∧ (putSlot index value m).2 = m := by
  match index with
  | 0 | 1 | 2 => exact .inl ⟨by decide, rfl⟩
  | index + 3 => exact .inr ⟨by omega, rfl, rfl⟩

/-- A write is accepted, or refused with a status of 400. -/
theorem allOrNothing_of_cases {accepted : Prop} {m : Monitor} {result : Response × Monitor}
    (h : accepted ∧ result.1.status = 200 ∨
      ¬accepted ∧ result.1.status = 400 ∧ result.2 = m) : AllOrNothing m result := by
  rcases h with ⟨-, written⟩ | ⟨-, refused, same⟩
  · left
    omega
  · right
    exact (keeps_iff (by omega) _).2 same

/-! ### All requests -/

/-- Whatever the resource is, getting it changes nothing. -/
theorem serve_get (worker : Nat) (r : Request) (resource : Resource) (m : Monitor) :
    (serve worker r resource .get m).2 = m ∧ (serve worker r resource .get m).1.status ≠ 503 := by
  cases resource with
  | key k =>
    simp only [serve, withPart]
    rcases read : readKey k with answer | k'
    · exact ⟨rfl, (isRefusal_of_readKey read).2⟩
    · refine ⟨rfl, ?_⟩
      simp only [getKey, notRegistered]
      cases m.stats? k' <;> simp [Response.ok, Response.error]
  | _ => exact ⟨rfl, by simp [serve, Response.ok]⟩

theorem allOrNothing_serve (worker : Nat) (r : Request) (resource : Resource) (method : Method)
    (m : Monitor) : AllOrNothing m (serve worker r resource method m) := by
  have unknown : ∀ allow, AllOrNothing m (⟨405, allow, .empty⟩, m) := fun _ =>
    .inr (keeps_of_status (by simp))
  have get : AllOrNothing m (serve worker r resource .get m) := by
    obtain ⟨same, other⟩ := serve_get worker r resource m
    exact .inr ((keeps_iff other _).2 same)
  cases resource with
  | key k =>
    cases method with
    | get => exact get
    | post =>
      exact allOrNothing_withPart (fun _ => isRefusal_of_readKey)
        fun k => allOrNothing_registerKey k m
    | delete =>
      exact allOrNothing_withPart (fun _ => isRefusal_of_readKey)
        fun k => allOrNothing_unregisterKey k m
    | _ => exact unknown _
  | gate k =>
    cases method with
    | delete =>
      exact allOrNothing_withPart (fun _ => isRefusal_of_readKey)
        fun k => allOrNothing_clearGate k m
    | _ => exact unknown _
  | thresholds =>
    cases method with
    | get => exact get
    | put =>
      exact allOrNothing_withPart (fun _ => isRefusal_of_read)
        fun b => allOrNothing_of_cases (putThresholds_cases b m)
    | _ => exact unknown _
  | slot i =>
    cases method with
    | put =>
      refine allOrNothing_withPart (fun _ => isRefusal_of_readSlot) fun i => ?_
      refine allOrNothing_withPart (fun _ => isRefusal_of_read) fun v => ?_
      exact allOrNothing_of_cases (putSlot_cases i v m)
    | _ => exact unknown _
  | events =>
    cases method with
    | post =>
      exact allOrNothing_withPart (fun _ => isRefusal_of_read)
        fun events => allOrNothing_of_success (by simp [Response.ok]) _
    | _ => exact unknown _
  | _ =>
    cases method with
    | get => exact get
    | _ => exact unknown _

theorem allOrNothing_handle (worker : Nat) (r : Request) (m : Monitor) :
    AllOrNothing m (handle worker r m) := by
  unfold handle
  rcases Resource.ofPath? r.path with _ | resource
  · exact .inr (keeps_of_status (by simp))
  · by_cases head : r.method = .head
    · -- the answer to HEAD has the status of the answer to GET
      obtain ⟨same, other⟩ := serve_get worker r resource m
      simp only [head, if_true]
      exact .inr ((keeps_iff other _).2 same)
    · simp only [head, if_false]
      exact allOrNothing_serve worker r resource r.method m

/-- A request that only reads leaves the monitor as it is. -/
theorem handle_of_reading (worker : Nat) {r : Request}
    (reading : r.method = .get ∨ r.method = .head) (m : Monitor) :
    (handle worker r m).2 = m ∧ (handle worker r m).1.status ≠ 503 := by
  unfold handle
  rcases Resource.ofPath? r.path with _ | resource
  · exact ⟨rfl, by simp⟩
  · rcases reading with get | head
    · simp only [get, reduceCtorEq, if_false]
      exact serve_get worker r resource m
    · simp only [head, if_true]
      exact serve_get worker r resource m

/-! ### Batches of events, and thresholds -/

/-- An array with an element of another shape is refused. -/
theorem list_eq_error {α : Type} {shape : Json.Shape α} {items : List Json.Outline}
    {v : Json.Outline} (inside : v ∈ items) (bad : ∀ a, shape v ≠ .ok a) (closed : Bool) :
    ∃ refusal, Json.Shape.list shape (.array items closed) = .error refusal := by
  have stuck : ∃ refusal, items.mapM shape = .error refusal := by
    induction items with
    | nil => cases inside
    | cons first rest ih =>
      rw [List.mapM_cons]
      rcases here : shape first with refusal | a
      · exact ⟨refusal, rfl⟩
      · rcases List.mem_cons.1 inside with rfl | later
        · exact absurd here (bad a)
        · obtain ⟨refusal, same⟩ := ih later
          rw [same]
          exact ⟨refusal, rfl⟩
  obtain ⟨refusal, same⟩ := stuck
  refine ⟨refusal, ?_⟩
  rw [Json.Shape.list, same]
  rfl

theorem read_eq_error {α : Type} {r : Request} {shape : Json.Shape α} {refusal : Json.Refusal}
    (h : shape (Json.Outline.read r.body).1 = .error refusal) :
    ∃ answer, r.read shape = .error answer := by
  have undecoded : shape.decode r.body = .error refusal := by
    simp only [Json.Shape.decode, h]
    rfl
  unfold Request.read
  split
  · exact ⟨_, rfl⟩
  · split
    · exact ⟨_, rfl⟩
    · rw [undecoded]
      exact ⟨_, rfl⟩

/-- What is refused or only read leaves the monitor as it was: keys, thresholds, queued signals and
counters.  Only a status of 503 is counted, as a rejected registration.  So one bad element keeps a
whole batch of events from being processed, and thresholds that are refused leave those in force
that were. -/
theorem refusals_and_reads_keep (worker : Nat) (r : Request) (m : Monitor) :
    (400 ≤ (handle worker r m).1.status ∨ r.method = .get ∨ r.method = .head →
      Keeps m (handle worker r m)) ∧
    (r.method = .post → Resource.ofPath? r.path = some .events →
      ∀ items closed, (Json.Outline.read r.body).1 = .array items closed →
        (∃ v ∈ items, ∀ e, Wire.event v ≠ .ok e) →
          400 ≤ (handle worker r m).1.status ∧ (handle worker r m).2 = m) ∧
    (r.method = .put → 400 ≤ (handle worker r m).1.status →
      (handle worker r m).2.thresholds = m.thresholds ∧
        (handle worker r m).2.thresholds.active? = m.thresholds.active?) ∧
    (r.method = .put → Resource.ofPath? r.path = some .thresholds →
      ∀ b, r.read Wire.bounds = .ok b → ¬b.Consistent →
        (handle worker r m).1.status = 400 ∧ (handle worker r m).2 = m) := by
  have keeps : 400 ≤ (handle worker r m).1.status → Keeps m (handle worker r m) := fun refused =>
    (allOrNothing_handle worker r m).resolve_left (Nat.not_lt.2 refused)
  refine ⟨?_, ?_, ?_, ?_⟩
  · rintro (refused | reading)
    · exact keeps refused
    · obtain ⟨same, other⟩ := handle_of_reading worker reading m
      exact (keeps_iff other _).2 same
  · intro post path items closed read bad
    obtain ⟨v, inside, bad⟩ := bad
    obtain ⟨refusal, refused⟩ := list_eq_error inside bad closed
    obtain ⟨answer, unread⟩ := read_eq_error (r := r) (read.symm ▸ refused)
    have served : handle worker r m = (answer, m) := by
      unfold handle serve
      rw [path, post, unread]
      rfl
    rw [served]
    exact ⟨(isRefusal_of_read unread).1, rfl⟩
  · intro put refused
    have same : (handle worker r m).2.thresholds = m.thresholds := by
      rw [keeps refused]
    exact ⟨same, by rw [same]⟩
  · intro put path b read inconsistent
    have served : handle worker r m = putThresholds b m := by
      unfold handle serve
      rw [path, put, read]
      rfl
    rw [served]
    exact ((putThresholds_cases b m).resolve_left fun h => inconsistent h.1).2

end ScaleWatch.Http
