import Mathlib.Data.Finset.Card
import ScaleWatch.Daemon.StartUp
import ScaleWatch.Proofs.Config.Delay
import ScaleWatch.Proofs.Registry.BoundedMap

/-!
# A start fails for want of room only

A configuration that is accepted has been checked, so nothing in it can stop the daemon on its way
to its port but one thing that is not checked: it may list more keys than may be watched.
`start_fails_for_room_only` says that a start from it fails exactly then, and at which key, and what
there is otherwise when the port is opened.
-/

namespace ScaleWatch

/-! ### Watching the listed keys -/

namespace Registry

/-- The registry watches the keys of a list, all from zero, and no others. -/
structure Lists (capacity : Nat) (keys : List Key) (r : Registry) : Prop where
  find : ∀ k, r.find? k = if k ∈ keys then some .zero else none
  counted : Counted capacity r

section Lists

variable {capacity : Nat} {keys : List Key} {r : Registry}

theorem lists_empty (capacity : Nat) : Lists capacity [] (empty capacity) :=
  ⟨fun _ => rfl, counted_empty capacity⟩

theorem Lists.contains_iff (h : Lists capacity keys r) (k : Key) :
    r.contains k = true ↔ k ∈ keys := by
  rw [contains, h.find]
  by_cases inside : k ∈ keys <;> simp [inside]

/-- As many keys are registered as the list has distinct ones. -/
theorem Lists.length_keys (h : Lists capacity keys r) : r.keys.length = keys.toFinset.card := by
  rw [← List.toFinset_card_of_nodup r.nodup_keys]
  congr 1
  ext k
  rw [List.mem_toFinset, List.mem_toFinset, mem_keys_iff, h.contains_iff]

/-- One more key is registered, or it is new and there is no room for it. -/
theorem Lists.register (h : Lists capacity keys r) (k : Key) :
    (∃ isNew r', r.register k = .ok (isNew, r') ∧ Lists capacity (keys ++ [k]) r') ∨
      k ∉ keys ∧ keys.toFinset.card = capacity ∧
        r.register k = .error (.registryFull capacity) := by
  rcases h.counted.register_cases k with ⟨watched, same⟩ | ⟨absent, full, same⟩ |
    ⟨absent, -, r', same, -, -, -, find⟩
  · have inside := (h.contains_iff k).1 watched
    refine .inl ⟨false, r, same, fun k' => ?_, h.counted⟩
    rw [h.find]
    by_cases here : k' = k <;> simp [here, inside]
  · refine .inr ⟨fun inside => ?_, h.length_keys ▸ full, same⟩
    rw [(h.contains_iff k).2 inside] at absent
    cases absent
  · refine .inl ⟨true, r', same, fun k' => ?_, h.counted.of_register same⟩
    rw [find, h.find]
    by_cases here : k' = k <;> simp [here]

end Lists

end Registry

namespace Daemon

open Registry (Lists)

/-- In a list of keys, `k` is the first for which there is no room any more. -/
def Exceeds (capacity : Nat) (keys : List Key) (k : Key) : Prop :=
  ∃ before later, keys = before ++ k :: later ∧ k ∉ before ∧ before.toFinset.card = capacity

theorem Exceeds.lt_card {capacity : Nat} {keys : List Key} {k : Key}
    (h : Exceeds capacity keys k) : capacity < keys.toFinset.card := by
  obtain ⟨before, later, rfl, fresh, rfl⟩ := h
  refine Finset.card_lt_card (Finset.ssubset_iff_of_subset ?_ |>.2 ⟨k, ?_, ?_⟩)
  · intro k' inside
    simp only [List.mem_toFinset, List.mem_append] at inside ⊢
    exact .inl inside
  · simp
  · simpa using fresh

/-- All keys are watched, or the first for which there is no room is named. -/
theorem watchAll_cases {capacity : Nat} {seen : List Key} {m : Monitor}
    (h : Lists capacity seen m.registry) (keys : List Key) :
    (∃ registry, Boot.watchAll keys m = .ok { m with registry } ∧
        Lists capacity (seen ++ keys) registry) ∨
      ∃ before k later, keys = before ++ k :: later ∧ k ∉ seen ++ before ∧
        (seen ++ before).toFinset.card = capacity ∧
        Boot.watchAll keys m = .error (.preRegistering k (.registryFull capacity)) := by
  induction keys generalizing seen m with
  | nil => exact .inl ⟨m.registry, rfl, by rwa [List.append_nil]⟩
  | cons k keys ih =>
    rcases h.register k with ⟨isNew, registry, same, lists⟩ | ⟨fresh, full, same⟩
    · have next : m.register k = (.ok isNew, { m with registry }) := by
        rw [Monitor.register, same]
      rw [Boot.watchAll, next]
      rcases ih (m := { m with registry }) lists with ⟨final, watched, lists⟩ |
        ⟨before, k', later, rfl, fresh, full, refused⟩
      · exact .inl ⟨final, watched, by rwa [List.append_assoc] at lists⟩
      · rw [List.append_assoc] at fresh full
        exact .inr ⟨k :: before, k', later, rfl, fresh, full, refused⟩
    · refine .inr ⟨[], k, keys, rfl, ?_, ?_, ?_⟩
      · rwa [List.append_nil]
      · rwa [List.append_nil]
      · rw [Boot.watchAll, Monitor.register, same]

/-! ### Steps of start-up -/

namespace Boot

variable {α β : Type}

theorem run_bind (x : Boot α) (f : α → Boot β) (notices : List Notice) :
    (x >>= f).run notices =
      match x.run notices with
      | (.ok a, notices) => (f a).run notices
      | (.error fault, notices) => (.error fault, notices) := by
  show ExceptT.bindCont f (x.run notices).1 (x.run notices).2 = _
  rcases x.run notices with ⟨_ | _, after⟩ <;> rfl

theorem run_report (n : Notice) (notices : List Notice) :
    (report n).run notices = (.ok (), notices ++ [n]) :=
  rfl

theorem run_ofExcept {ε : Type} (f : ε → StartFault) (x : Except ε α) (notices : List Notice) :
    (ofExcept f x).run notices = (x.mapError f, notices) := by
  cases x <;> rfl

/-- The notice about the bounds of a configuration. -/
def seeded (c : Config) : Notice :=
  c.bounds?.elim .noThresholds .thresholdsLoaded

/-- The slots with the bounds of a configuration in force. -/
def slots (c : Config) : Bounds.Slots :=
  c.bounds?.elim .empty .ofBounds

theorem run_seed {c : Config} (sound : ∀ b, c.bounds? = some b → b.Consistent) (m : Monitor)
    (empty : m.thresholds = .empty) (notices : List Notice) :
    (seed c.bounds? m).run notices =
      (.ok { m with thresholds := slots c }, notices ++ [seeded c]) := by
  rcases given : c.bounds? with _ | b
  · rw [seed, run_bind, run_report, slots, seeded, given, Option.elim_none, Option.elim_none,
      ← empty]
    rfl
  · have checked : b.check = .ok () := Bounds.check_eq_ok_iff.2 (sound b given)
    have stored : m.store b = .ok { m with thresholds := .ofBounds b } := by
      rw [Monitor.store, Bounds.Slots.store, checked]
      rfl
    rw [seed, run_bind, run_report]
    simp only [run_ofExcept, stored, slots, seeded, given, Option.elim_some]
    rfl

/-- What a daemon has that is started from a configuration when it opens its port. -/
structure Ready (c : Config) (session : Session) : Prop where
  watched : ∀ k, session.monitor.registry.find? k = if k ∈ c.keys then some .zero else none
  inForce : session.monitor.thresholds.active? = c.bounds?
  fresh : ∃ delay registry, c.rearm = .ok delay ∧
    session = .new { Monitor.new c.settings with registry, thresholds := slots c } true
      (delay.map fun d => 1000 * d.seconds.toNat)

section Prepare

variable {c : Config}

theorem active?_slots (sound : ∀ b, c.bounds? = some b → b.Consistent) :
    (slots c).active? = c.bounds? := by
  rcases given : c.bounds? with _ | b
  · rw [slots, given]
    rfl
  · rw [slots, given, Option.elim_some, Bounds.Slots.active?_ofBounds, if_pos (sound b given)]

/-- A checked configuration of a size that can be built gives a session, or has a key too many. -/
theorem run_prepare (checked : c.check = .ok ()) (slotsFit : c.signalSlots.toNat ≤ Channel.maxSlots)
    (capacityFits : c.slotCapacity.toNat ≤ Channel.maxCapacity) (notices : List Notice) :
    (∃ k, Exceeds c.maxKeys.toNat c.keys k ∧ (prepare c).run notices =
      (.error (.preRegistering k (.registryFull c.maxKeys.toNat)), notices ++ [seeded c])) ∨
    c.keys.toFinset.card ≤ c.maxKeys.toNat ∧ ∃ session, Ready c session ∧
      (prepare c).run notices = (.ok session, notices ++ [seeded c] ++ [.monitorReady c]) := by
  obtain ⟨sound, delay, rearm⟩ := Config.sound_of_check checked
  have fits : ¬(Channel.maxSlots < c.settings.signalSlots ∨
      Channel.maxCapacity < c.settings.slotCapacity) :=
    not_or.2 ⟨Nat.not_lt.2 slotsFit, Nat.not_lt.2 capacityFits⟩
  have lists : Registry.Lists c.maxKeys.toNat [] (Monitor.new c.settings).registry :=
    Registry.lists_empty _
  have seeds := run_seed sound (.new c.settings) rfl notices
  have watching : (prepare c).run notices =
      (ofExcept id (watchAll c.keys { Monitor.new c.settings with thresholds := slots c }) >>=
        fun m => report (.monitorReady c) >>= fun _ =>
          pure (Session.new m true (delay.map fun d => 1000 * d.seconds.toNat))).run
        (notices ++ [seeded c]) := by
    rw [prepare, run_bind, run_ofExcept, rearm]
    show (checkChannel c.settings >>= _).run notices = _
    rw [run_bind, checkChannel, if_neg fits]
    show (seed c.bounds? (.new c.settings) >>= _).run notices = _
    rw [run_bind, seeds]
  rw [watching, run_bind, run_ofExcept]
  rcases watchAll_cases (m := { Monitor.new c.settings with thresholds := slots c }) lists c.keys
    with ⟨registry, watched, lists⟩ | ⟨before, k, later, split, fresh, full, refused⟩
  · refine .inr ⟨?_, Session.new
      { Monitor.new c.settings with registry, thresholds := slots c } true
      (delay.map fun d => 1000 * d.seconds.toNat), ?_, ?_⟩
    · have := lists.length_keys
      have := lists.counted.bounded
      simp only [List.nil_append] at *
      omega
    · exact ⟨lists.find, active?_slots sound, delay, registry, rearm, rfl⟩
    · rw [watched]
      rfl
  · refine .inl ⟨k, ⟨before, later, split, fresh, full⟩, ?_⟩
    rw [refused]
    rfl

/-- A start from an accepted configuration comes as far as the port, or has a key too many. -/
theorem outcome_start {env : Environment} {options : RunOptions} {path : String}
    (given : options.config? = some path)
    (accepted : Config.load env.units (env.file path) = .ok c)
    (slotsFit : c.signalSlots.toNat ≤ Channel.maxSlots)
    (capacityFits : c.slotCapacity.toNat ≤ Channel.maxCapacity) :
    (∃ k, Exceeds c.maxKeys.toNat c.keys k ∧ (start env options).outcome =
      ([.starting, seeded c], .error (.preRegistering k (.registryFull c.maxKeys.toNat)))) ∨
    c.keys.toFinset.card ≤ c.maxKeys.toNat ∧ ∃ session, Ready c session ∧
      (start env options).outcome =
        ([.starting, seeded c, .monitorReady c, .apiStarting options.port],
          ((env.bind options.port).mapError .binding).map fun _ => session) := by
  have loaded : (config env options.config?).run [.starting] = (.ok c, [.starting]) := by
    rw [given, config]
    simp only [run_ofExcept, accepted]
    rfl
  have starting : (start env options).run [] = (prepare c >>= fun session =>
      report (.apiStarting options.port) >>= fun _ =>
        ofExcept .binding (env.bind options.port) >>= fun _ => pure session).run [.starting] := by
    rw [start, run_bind, run_report]
    show (config env options.config? >>= _).run [.starting] = _
    rw [run_bind, loaded]
  rcases run_prepare (Config.check_of_load accepted) slotsFit capacityFits [.starting] with
    ⟨k, exceeds, prepared⟩ | ⟨room, session, ready, prepared⟩
  · refine .inl ⟨k, exceeds, ?_⟩
    rw [outcome, starting, run_bind, prepared]
    rfl
  · refine .inr ⟨room, session, ready, ?_⟩
    rw [outcome, starting, run_bind, prepared]
    cases env.bind options.port <;> rfl

end Prepare

end Boot

/-- A start from an accepted configuration, of a size that can be built, never fails for a setting
in it.  It fails to watch the listed keys exactly if more of them are distinct than may be watched,
and then the first key for which there is no room is named, with the number that there may be.
Otherwise all that is left to do is to open the port, and then the listed keys and no others are
watched, all from zero, and the bounds are in force if there are any. -/
theorem start_fails_for_room_only {env : Environment} {options : RunOptions} {path : String}
    {c : Config} (given : options.config? = some path)
    (accepted : Config.load env.units (env.file path) = .ok c)
    (slotsFit : c.signalSlots.toNat ≤ Channel.maxSlots)
    (capacityFits : c.slotCapacity.toNat ≤ Channel.maxCapacity) :
    let outcome := (Boot.start env options).outcome
    (∀ fault, outcome.2 ≠ .error (.setting fault)) ∧
    ((∃ k cause, outcome.2 = .error (.preRegistering k cause)) ↔
      c.maxKeys.toNat < c.keys.toFinset.card) ∧
    (∀ k cause, outcome.2 = .error (.preRegistering k cause) →
      Exceeds c.maxKeys.toNat c.keys k ∧
        (StartFault.preRegistering k cause).message = "pre-registering " ++ k.text ∧
        (StartFault.preRegistering k cause).cause? =
          some ("watch registry is full (" ++ c.maxKeys.toNat.repr ++ " keys)")) ∧
    (c.keys.toFinset.card ≤ c.maxKeys.toNat → ∃ session, Boot.Ready c session ∧
      outcome = ([.starting, Boot.seeded c, .monitorReady c, .apiStarting options.port],
        ((env.bind options.port).mapError .binding).map fun _ => session)) := by
  intro outcome
  rcases Boot.outcome_start given accepted slotsFit capacityFits with
    ⟨k, exceeds, failed⟩ | ⟨room, session, ready, came⟩
  · have ended : outcome.2 = .error (.preRegistering k (.registryFull c.maxKeys.toNat)) :=
      congrArg (·.2) failed
    rw [ended]
    refine ⟨nofun, iff_of_true ⟨k, _, rfl⟩ exceeds.lt_card, ?_, fun room => ?_⟩
    · rintro k' cause same
      cases same
      exact ⟨exceeds, rfl, rfl⟩
    · exact absurd exceeds.lt_card (Nat.not_lt.2 room)
  · have ended : outcome.2 = ((env.bind options.port).mapError .binding).map fun _ => session :=
      congrArg (·.2) came
    have bound : ∀ fault, outcome.2 = .error fault → ∃ cause, fault = .binding cause := by
      intro fault same
      rw [ended] at same
      cases opened : env.bind options.port with
      | ok => rw [opened] at same; cases same
      | error cause =>
        rw [opened] at same
        cases same
        exact ⟨cause, rfl⟩
    refine ⟨fun fault same => ?_, iff_of_false ?_ (Nat.not_lt.2 room), fun k cause same => ?_,
      fun _ => ⟨session, ready, came⟩⟩
    · obtain ⟨cause, other⟩ := bound _ same
      cases other
    · rintro ⟨k, cause, same⟩
      obtain ⟨cause', other⟩ := bound _ same
      cases other
    · obtain ⟨cause', other⟩ := bound _ same
      cases other

/-- A configuration with room for two keys that lists the first of them twice and two more. -/
def crowded : Config :=
  { Config.default 8 with
    maxKeys := 2
    signalSlots := 1
    keys := [.port 80, .netns 7, .port 80, .port 81, .netns 7, .port 82] }

def crowdedText : List Char :=
  ("[monitor]\nmax_keys = 2\nsignal_slots = 1\n[watch]\n" ++
    "keys = ['port:80', 'netns:7', 'port:+080', 'port:81', 'netns:7', 'port:82']").toList

def crowdedEnvironment : Environment :=
  ⟨8, fun _ => .ok (Text.Utf8.encode crowdedText), fun _ => .ok ()⟩

theorem start_fails_for_room_only_crowded :
    Config.load 8 (crowdedEnvironment.file "watch.toml") = .ok crowded ∧
      crowded.signalSlots.toNat ≤ Channel.maxSlots ∧
      crowded.slotCapacity.toNat ≤ Channel.maxCapacity ∧
      ∃ k cause, (Boot.start crowdedEnvironment ⟨some "watch.toml", 9400, false⟩).outcome.2 =
          .error (.preRegistering k cause) ∧ Exceeds 2 crowded.keys k ∧
        (StartFault.preRegistering k cause).cause? = some "watch registry is full (2 keys)" := by
  have accepted : Config.load 8 (crowdedEnvironment.file "watch.toml") = .ok crowded := by
    have read : Config.ofChars 8 crowdedText = .ok crowded := by decide +kernel
    simp only [Config.load, crowdedEnvironment, Text.Utf8.decode?_encode, read]
  have slotsFit : crowded.signalSlots.toNat ≤ Channel.maxSlots := by decide +kernel
  have capacityFits : crowded.slotCapacity.toNat ≤ Channel.maxCapacity := by decide +kernel
  have words : "watch registry is full (" ++ crowded.maxKeys.toNat.repr ++ " keys)" =
      "watch registry is full (2 keys)" := by decide +kernel
  obtain ⟨-, fails, names, -⟩ := @start_fails_for_room_only crowdedEnvironment
    ⟨some "watch.toml", 9400, false⟩ "watch.toml" crowded rfl accepted slotsFit capacityFits
  obtain ⟨k, cause, failed⟩ := fails.2 (by decide)
  obtain ⟨exceeds, -, said⟩ := names k cause failed
  exact ⟨accepted, slotsFit, capacityFits, k, cause, failed, exceeds, words ▸ said⟩

end Daemon

end ScaleWatch
