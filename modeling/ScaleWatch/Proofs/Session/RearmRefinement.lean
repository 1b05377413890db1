import ScaleWatch.Proofs.Session.Agenda

/-!
# Generations and timers keep one deadline a key

Every signal that a consumer takes leaves a timer of its own, and generation numbers, which are
forgotten and given out again, say which timers still count.  `rearm_refines_deadlines` says that
all this is an agenda: in whatever order the ready work is done, the monitor is the one of the
agenda after every step, and the timers that count stand for its deadlines.

What carries the proof is `Tracks`, which says of one key how its timers and its newest generation
stand for a deadline while the ready work is being done.
-/

namespace ScaleWatch.Session

open Agenda

/-- Steps that are over before the consumer and the timers have their turn.  Only the ingestion of
lines is not: it takes turns with them. -/
def Step.Instant : Step → Prop
  | .lines _ => False
  | _ => True

instance : DecidablePred Step.Instant
  | .lines _ => isFalse id
  | .monitor _ | .advance _ | .shutdown | .http _ => isTrue trivial

/-- The timer that will release the gate of a key: the one of its newest generation. -/
def newest? (k : Key) (s : Session) : Option Timer :=
  s.consumer.bind fun c => (c.generations k).bind fun generation =>
    s.timers.find? fun t => t.key = k ∧ t.generation = generation

/-! ### The timers of one key -/

/-- How the timers of a key and its newest generation stand for a deadline at time `now`, when the
gate of the key was released since the last step, or was not (`cleared`).  A stale timer may carry
the number of the newest generation, but then both are due. -/
def Tracks (now : Nat) (timers : List Timer) (k : Key) (deadline : Option Nat) (cleared : Prop) :
    Option Nat → Prop
  | none =>
    (∀ t ∈ timers, t.key = k → t.due ≤ now) ∧
      (deadline = none ∧ ¬cleared ∨ ∃ due ≤ now, deadline = some due ∧ cleared)
  | some generation =>
    ∃ due, deadline = some due ∧ ⟨k, generation, due⟩ ∈ timers ∧ (cleared → due ≤ now) ∧
      ∀ t ∈ timers, t.key = k →
        t.due ≤ max due now ∧ (t.generation ≤ generation ∨ t.due ≤ now) ∧
          (t.generation = generation → t.due = due ∨ t.due ≤ now ∧ due ≤ now)

section Tracks

variable {now : Nat} {timers : List Timer} {k : Key} {deadline : Option Nat} {cleared : Prop}
  {generation : Option Nat}

theorem Tracks.later {now' : Nat} (h : Tracks now timers k deadline False generation)
    (le : now ≤ now') : Tracks now' timers k deadline False generation := by
  cases generation with
  | none =>
    obtain ⟨due, hyp⟩ := h
    exact ⟨fun t ht hk => Nat.le_trans (due t ht hk) le, .inl (by simpa using hyp)⟩
  | some g =>
    obtain ⟨due, rfl, owner, -, all⟩ := h
    refine ⟨due, rfl, owner, False.elim, fun t ht hk => ?_⟩
    obtain ⟨h₁, h₂, h₃⟩ := all t ht hk
    exact ⟨by omega, by omega, fun same => by have := h₃ same; omega⟩

/-- A timer of another key says nothing about this one. -/
theorem Tracks.append_other (h : Tracks now timers k deadline cleared generation) {t : Timer}
    (other : t.key ≠ k) : Tracks now (timers ++ [t]) k deadline cleared generation := by
  cases generation with
  | none =>
    refine ⟨fun t' ht' hk => ?_, h.2⟩
    rcases List.mem_append.1 ht' with old | new
    · exact h.1 t' old hk
    · exact absurd (List.mem_singleton.1 new ▸ hk) other
  | some g =>
    obtain ⟨due, hd, owner, hc, all⟩ := h
    refine ⟨due, hd, List.mem_append_left _ owner, hc, fun t' ht' hk => ?_⟩
    rcases List.mem_append.1 ht' with old | new
    · exact all t' old hk
    · exact absurd (List.mem_singleton.1 new ▸ hk) other

/-- A new generation takes the deadline over.  This is where a number could be given out that an
old timer still carries: either no timer is due, and then none carries it, or all are. -/
theorem Tracks.renew (h : Tracks now timers k deadline cleared generation) {delay : Nat}
    (bounded : ∀ t ∈ timers, t.due ≤ now + delay)
    (apart : delay = 0 ∨ (∀ t ∈ timers, now < t.due) ∧ ¬cleared) :
    Tracks now (timers ++ [⟨k, generation.getD 0 + 1, now + delay⟩]) k (some (now + delay)) cleared
      (some (generation.getD 0 + 1)) := by
  refine ⟨now + delay, rfl, by simp, ?_, fun t ht hk => ?_⟩
  · intro hc
    rcases apart with rfl | ⟨-, not⟩
    · exact Nat.le_refl _
    · exact absurd hc not
  · rcases List.mem_append.1 ht with old | new
    · have bound := bounded t old
      refine ⟨by omega, ?_⟩
      rcases apart with rfl | ⟨waiting, -⟩
      · exact ⟨.inr bound, fun _ => .inr ⟨bound, Nat.le_refl _⟩⟩
      · have ahead := waiting t old
        cases generation with
        | none => exact absurd (h.1 t old hk) (Nat.not_le.2 ahead)
        | some g =>
          obtain ⟨due, -, -, -, all⟩ := h
          obtain ⟨-, below, -⟩ := all t old hk
          simp only [Option.getD_some]
          exact ⟨by omega, fun same => by omega⟩
    · rw [List.mem_singleton.1 new]
      exact ⟨Nat.le_max_left _ _, .inl (Nat.le_refl _), fun _ => .inl rfl⟩

/-- A due timer of the newest generation releases the gate, and the deadline was due. -/
theorem Tracks.fire_newest {t : Timer}
    (h : Tracks now timers k deadline cleared (some t.generation)) (waiting : t ∈ timers)
    (hk : t.key = k) (due : t.due ≤ now) :
    Tracks now (timers.erase t) k deadline True none := by
  obtain ⟨x, rfl, -, -, all⟩ := h
  have come : x ≤ now := by
    obtain ⟨-, -, own⟩ := all t waiting hk
    have := own rfl
    omega
  refine ⟨fun t' ht' hk' => ?_, .inr ⟨x, come, rfl, trivial⟩⟩
  have := (all t' (List.mem_of_mem_erase ht') hk').1
  omega

/-- A timer that is not of the newest generation changes nothing. -/
theorem Tracks.fire_stale {t : Timer} (h : Tracks now timers k deadline cleared generation)
    (stale : t.key = k → generation ≠ some t.generation) :
    Tracks now (timers.erase t) k deadline cleared generation := by
  cases generation with
  | none => exact ⟨fun t' ht' => h.1 t' (List.mem_of_mem_erase ht'), h.2⟩
  | some g =>
    obtain ⟨due, hd, owner, hc, all⟩ := h
    refine ⟨due, hd, (List.mem_erase_of_ne ?_).2 owner, hc, fun t' ht' =>
      all t' (List.mem_of_mem_erase ht')⟩
    rintro rfl
    exact stale rfl rfl

/-- Once no timer is due, the gate was released exactly if the deadline had come. -/
theorem Tracks.settled (h : Tracks now timers k deadline cleared generation)
    (none_due : ∀ t ∈ timers, now < t.due) :
    Tracks now timers k (deadline.filter (now < ·)) False generation ∧
      (cleared ↔ deadline.any (· ≤ now)) := by
  cases generation with
  | none =>
    rcases h with ⟨late, ⟨rfl, not⟩ | ⟨due, come, rfl, yes⟩⟩
    · exact ⟨⟨late, .inl ⟨rfl, id⟩⟩, by simpa using not⟩
    · exact ⟨⟨late, .inl ⟨by simp [come], id⟩⟩, by simpa [come] using yes⟩
  | some g =>
    obtain ⟨due, rfl, owner, hc, all⟩ := h
    have ahead : now < due := none_due _ owner
    refine ⟨⟨due, by simp [ahead], owner, False.elim, all⟩, ?_⟩
    simp only [Option.any_some, decide_eq_true_eq]
    exact ⟨hc, fun come => absurd come (Nat.not_le.2 ahead)⟩

/-- Once no timer is due, the timer that counts is there exactly for the deadline. -/
theorem Tracks.find? {g : Nat} (h : Tracks now timers k deadline cleared (some g))
    (none_due : ∀ t ∈ timers, now < t.due) :
    (timers.find? fun t => t.key = k ∧ t.generation = g).map (·.due) = deadline := by
  obtain ⟨due, rfl, owner, -, all⟩ := h
  cases found : timers.find? fun t => decide (t.key = k ∧ t.generation = g) with
  | none =>
    have := List.find?_eq_none.1 found _ owner
    simp at this
  | some t =>
    have here := List.find?_some found
    have inside := List.mem_of_find?_eq_some found
    simp only [decide_eq_true_eq] at here
    obtain ⟨-, -, own⟩ := all t inside here.1
    have := none_due t inside
    rw [Option.map_some, (own here.2).resolve_right (by omega)]

end Tracks

/-! ### While the ready work is done -/

/-- What holds in the middle of the ready work that began in `s₀`, when `taken` was taken since and
the gates of `cleared` were released. -/
structure Settling (s₀ : Session) (delay : Nat) (running : Bool) (deadlines : Key → Option Nat)
    (s : Session) (taken : List Signal) (cleared : List Key) (generations : Key → Option Nat) :
    Prop where
  now : s.now = s₀.now
  consumer : s.consumer = some ⟨some delay, running, generations⟩
  monitor : s.monitor =
    { s₀.monitor with registry := s.monitor.registry, channel := s.monitor.channel }
  capacity : s.monitor.registry.capacity = s₀.monitor.registry.capacity
  reserved : s.monitor.registry.reserved = s₀.monitor.registry.reserved
  find : ∀ k, s.monitor.registry.find? k =
    if k ∈ cleared then (s₀.monitor.registry.find? k).map released
    else s₀.monitor.registry.find? k
  channel : ∃ limit, Channel.drainUpTo limit s₀.monitor.channel = (taken, s.monitor.channel)
  idle : running = false → taken = [] ∧ s.monitor.channel = s₀.monitor.channel
  bounded : ∀ t ∈ s.timers, t.due ≤ s.now + delay
  tracks : ∀ k, Tracks s.now s.timers k (noted deadlines (s₀.now + delay) taken k) (k ∈ cleared)
    (generations k)
  /-- With a delay, signals are not taken in the same settling in which timers fire. -/
  apart : delay = 0 ∨ ((∀ t ∈ s.timers, s.now < t.due) ∧ cleared = []) ∨
    (running = true → s.monitor.channel.tryRecv = none)

section Settling

variable {s₀ s s' : Session} {delay : Nat} {running : Bool} {deadlines : Key → Option Nat}
  {taken : List Signal} {cleared : List Key} {generations : Key → Option Nat}

theorem Settling.take (h : Settling s₀ delay running deadlines s taken cleared generations)
    {signal : Signal} {channel : Channel} (consuming : s.isConsuming)
    (ready : s.monitor.channel.tryRecv = some (signal, channel)) :
    Settling s₀ delay running deadlines
      ({ s with monitor := { s.monitor with channel } }.schedule signal.key) (taken ++ [signal])
      cleared fun k =>
        if k = signal.key then some ((generations signal.key).getD 0 + 1) else generations k := by
  have runs : running = true := by simpa [isConsuming, h.consumer] using consuming
  have apart : delay = 0 ∨ (∀ t ∈ s.timers, s.now < t.due) ∧ cleared = [] := by
    rcases h.apart with zero | waiting | stuck
    · exact .inl zero
    · exact .inr waiting
    · rw [stuck runs] at ready
      cases ready
  rw [schedule_of_delay (s := { s with monitor := { s.monitor with channel } }) h.consumer]
  refine ⟨h.now, rfl, ?_, h.capacity, h.reserved, h.find, ?_, ?_, ?_, fun k => ?_, ?_⟩
  · exact congrArg (fun m : Monitor => { m with registry := s.monitor.registry, channel }) h.monitor
  · obtain ⟨limit, hl⟩ := h.channel
    refine ⟨limit + 1, ?_⟩
    rw [Channel.drainUpTo_succ, hl]
    simp only [ready]
  · intro stopped
    rw [runs] at stopped
    cases stopped
  · intro t ht
    rcases List.mem_append.1 ht with old | new
    · exact h.bounded t old
    · obtain rfl := List.mem_singleton.1 new
      exact Nat.le_refl _
  · rw [noted_concat]
    by_cases here : k = signal.key
    · subst here
      rw [if_pos rfl, if_pos rfl, ← h.now]
      refine (h.tracks _).renew h.bounded (apart.imp_right fun quiet => ?_)
      exact ⟨quiet.1, by simp [quiet.2]⟩
    · rw [if_neg here, if_neg here]
      exact (h.tracks k).append_other (Ne.symm here)
  · refine apart.elim .inl fun quiet => ?_
    by_cases zero : delay = 0
    · exact .inl zero
    · refine .inr (.inl ⟨fun t ht => ?_, quiet.2⟩)
      rcases List.mem_append.1 ht with old | new
      · exact quiet.1 t old
      · rw [List.mem_singleton.1 new]
        exact Nat.lt_add_of_pos_right (Nat.pos_of_ne_zero zero)

theorem Settling.fire (h : Settling s₀ delay running deadlines s taken cleared generations)
    {t : Timer} (waiting : t ∈ s.timers) (due : t.due ≤ s.now) :
    ∃ cleared' generations', Settling s₀ delay running deadlines
      (fire t { s with timers := s.timers.erase t }) taken cleared' generations' := by
  have bounded : ∀ t' ∈ s.timers.erase t, t'.due ≤ s.now + delay := fun t' ht' =>
    h.bounded t' (List.mem_of_mem_erase ht')
  have apart : delay = 0 ∨ (running = true → s.monitor.channel.tryRecv = none) := by
    rcases h.apart with zero | ⟨ahead, -⟩ | stuck
    · exact .inl zero
    · exact absurd due (Nat.not_le.2 (ahead t waiting))
    · exact .inr stuck
  by_cases newest : generations t.key = some t.generation
  · obtain ⟨registry, cleared_eq, capacity, reserved, find⟩ := clearGate_eq t.key s.monitor
    rw [fire_of_newest (s := { s with timers := s.timers.erase t }) h.consumer newest, cleared_eq]
    refine ⟨t.key :: cleared, fun k => if k = t.key then none else generations k, h.now, rfl, ?_,
      capacity.trans h.capacity, reserved.trans h.reserved, fun k => ?_, h.channel, h.idle, bounded,
      fun k => ?_, apart.imp_right .inr⟩
    · exact congrArg (fun m : Monitor => { m with registry, channel := s.monitor.channel })
        h.monitor
    · rw [show ({ s.monitor with registry } : Monitor).registry.find? k = _ from find k, h.find]
      by_cases here : k = t.key
      · rw [if_pos here, if_pos (List.mem_cons.2 (.inl here))]
        split
        · rw [Option.map_map]
          rfl
        · rfl
      · simp only [List.mem_cons, here, if_false, false_or]
    · by_cases here : k = t.key
      · subst here
        have tracked := h.tracks t.key
        rw [newest] at tracked
        simpa using tracked.fire_newest waiting rfl due
      · have tracked := (h.tracks k).fire_stale (t := t) fun same => absurd same.symm here
        simpa [here] using tracked
  · rw [fire_of_stale (s := { s with timers := s.timers.erase t }) h.consumer newest]
    refine ⟨cleared, generations, h.now, h.consumer, h.monitor, h.capacity, h.reserved, h.find,
      h.channel, h.idle, bounded, fun k => (h.tracks k).fire_stale ?_, apart.imp_right .inr⟩
    rintro rfl
    exact newest

theorem Settling.work (h : Settling s₀ delay running deadlines s taken cleared generations)
    (w : Work s s') : ∃ taken' cleared' generations',
      Settling s₀ delay running deadlines s' taken' cleared' generations' := by
  cases w with
  | take consuming ready => exact ⟨_, _, _, h.take consuming (Channel.tryRecv_of_poll ready)⟩
  | fire waiting due => exact ⟨taken, h.fire waiting due⟩

theorem Settling.works (h : Settling s₀ delay running deadlines s taken cleared generations)
    (w : Relation.ReflTransGen Work s s') : ∃ taken' cleared' generations',
      Settling s₀ delay running deadlines s' taken' cleared' generations' := by
  induction w with
  | refl => exact ⟨_, _, _, h⟩
  | tail _ last ih =>
    obtain ⟨_, _, _, before⟩ := ih
    exact before.work last

theorem Settled.ahead (h : s.Settled) {t : Timer} (waiting : t ∈ s.timers) : s.now < t.due :=
  Nat.not_le.1 fun due => h _ (.fire waiting due)

theorem Settled.tryRecv (h : s.Settled) (running : s.isConsuming) :
    s.monitor.channel.tryRecv = none := by
  rcases ready : s.monitor.channel.tryRecv with _ | ⟨signal, channel⟩
  · rfl
  · have polled : s.monitor.channel.poll = (.ready signal, channel) := by
      rw [Channel.poll_eq, ready]
    exact absurd (Work.take running polled) (h _)

end Settling

/-! ### What a step does at once -/

theorem operateAll_of_consumer (ops : List Monitor.Op) {s : Session} {c : Consumer}
    (h : s.consumer = some c) :
    (s.operateAll ops).2 = { s with
      monitor := ops.foldl (fun m op =>
        if (answerWithoutStream? op).isSome then m else (m.step op).2) s.monitor } := by
  induction ops generalizing s with
  | nil => rfl
  | cons op ops ih =>
    have first : (s.operate op).2 = { s with
        monitor :=
          if (answerWithoutStream? op).isSome then s.monitor else (s.monitor.step op).2 } := by
      rcases s with ⟨now, m, _, timers⟩
      cases h
      rw [operate, Option.bind_some]
      cases answerWithoutStream? op <;> rfl
    have rest := ih (s := (s.operate op).2) (by rw [first]; exact h)
    rw [operateAll, List.foldl_cons]
    refine rest.trans ?_
    rw [first]

/-- Sessions that differ in what their consumers schedule are changed alike by a step, until its
ready work is done; and time passes only in steps that do nothing else. -/
theorem act_of_instant {st : Step} (instant : st.Instant) {s₁ s₂ : Session} {c₁ c₂ : Consumer}
    (now : s₁.now = s₂.now) (monitor : s₁.monitor = s₂.monitor) (h₁ : s₁.consumer = some c₁)
    (h₂ : s₂.consumer = some c₂) (running : c₁.running = c₂.running) :
    ∃ (now : Nat) (monitor : Monitor) (running : Bool),
      (s₁.act st).2.2 = { s₁ with now, monitor, consumer := some { c₁ with running } } ∧
      (s₂.act st).2.2 = { s₂ with now, monitor, consumer := some { c₂ with running } } ∧
      s₁.now ≤ now ∧ (now = s₁.now ∨ monitor = s₁.monitor ∧ running = c₁.running) := by
  rcases s₁ with ⟨time, m, _, timers₁⟩
  rcases s₂ with ⟨_, _, _, timers₂⟩
  cases now
  cases monitor
  cases h₁
  cases h₂
  cases st with
  | lines input => exact instant.elim
  | monitor ops =>
    refine ⟨time, _, c₁.running, operateAll_of_consumer ops rfl, ?_, Nat.le_refl _, .inl rfl⟩
    rw [running]
    exact operateAll_of_consumer ops rfl
  | advance milliseconds =>
    refine ⟨time + milliseconds, m, c₁.running, rfl, ?_, Nat.le_add_right _ _, .inr ⟨rfl, rfl⟩⟩
    rw [running]
    rfl
  | shutdown => exact ⟨time, _, false, rfl, rfl, Nat.le_refl _, .inl rfl⟩
  | http request =>
    refine ⟨time, _, c₁.running, rfl, ?_, Nat.le_refl _, .inl rfl⟩
    rw [running]
    rfl

/-! ### Between two steps -/

/-- A session and an agenda are in the same state between two steps. -/
structure Agrees (s : Session) (a : Agenda) : Prop where
  now : s.now = a.session.now
  monitor : s.monitor = a.session.monitor
  consumers : ∃ running generations idle,
    s.consumer = some ⟨some a.delay, running, generations⟩ ∧
      a.session.consumer = some ⟨none, running, idle⟩ ∧
      (∀ k, Tracks s.now s.timers k (a.deadlines k) False (generations k)) ∧
      (s.timers = [] ∨ (running = true → s.monitor.channel.tryRecv = none))
  bounded : ∀ t ∈ s.timers, t.due ≤ s.now + a.delay
  ahead : ∀ t ∈ s.timers, s.now < t.due

theorem agrees_new (m : Monitor) (delay : Nat) :
    Agrees (.new m true (some delay)) (.new m (min delay Consumer.maxDelay)) := by
  refine ⟨rfl, rfl, ⟨true, fun _ => none, fun _ => none, rfl, rfl, fun k => ?_, .inl rfl⟩, ?_, ?_⟩
  · exact ⟨by simp [Session.new], .inl ⟨rfl, id⟩⟩
  · simp [Session.new]
  · simp [Session.new]

section Settled

variable {s₀ s : Session} {a : Agenda} {running : Bool} {taken : List Signal} {cleared : List Key}
  {generations idle : Key → Option Nat}

/-- The consumer of an agenda takes the same signals, and leaves the same channel. -/
theorem Settling.consume_agenda
    (h : Settling s₀ a.delay running a.deadlines s taken cleared generations) (settled : s.Settled)
    (monitor : s₀.monitor = a.session.monitor)
    (consumer : a.session.consumer = some ⟨none, running, idle⟩) :
    a.session.consume = (taken, { a.session with
      monitor := { a.session.monitor with channel := s.monitor.channel } }) := by
  cases running with
  | false =>
    obtain ⟨rfl, same⟩ := h.idle rfl
    have stopped : a.session.isConsuming = false := by rw [isConsuming, consumer]; rfl
    rw [consume, stopped, same, monitor]
    rfl
  | true =>
    have consuming : a.session.isConsuming = true := by rw [isConsuming, consumer]; rfl
    have empty := settled.tryRecv (by rw [isConsuming, h.consumer]; rfl)
    obtain ⟨limit, taken_eq⟩ := h.channel
    have all := Channel.drainUpTo_eq_drain (by rw [taken_eq]; exact empty)
    rw [taken_eq, monitor] at all
    have drained : Channel.drainUpTo a.session.monitor.channel.pending a.session.monitor.channel =
        (taken, s.monitor.channel) := all.symm
    rw [consume, if_pos consuming, consumeUpTo_of_no_delay _ consumer, drained]

/-- When all ready work is done, the session is where the agenda is after its own ready work. -/
theorem Settling.agrees
    (h : Settling s₀ a.delay running a.deadlines s taken cleared generations) (settled : s.Settled)
    (now : s₀.now = a.session.now) (monitor : s₀.monitor = a.session.monitor)
    (consumer : a.session.consumer = some ⟨none, running, idle⟩) : Agrees s a.settle := by
  have ahead : ∀ t ∈ s.timers, s.now < t.due := fun t ht => settled.ahead ht
  obtain ⟨registry, expired, capacity, reserved, find⟩ := expire_eq
    { a with
      session := { a.session with
        monitor := { a.session.monitor with channel := s.monitor.channel } }
      deadlines := noted a.deadlines (a.session.now + a.delay) taken }
  have settle_eq : a.settle = Agenda.expire
      { a with
        session := { a.session with
          monitor := { a.session.monitor with channel := s.monitor.channel } }
        deadlines := noted a.deadlines (a.session.now + a.delay) taken } := by
    rw [Agenda.settle, h.consume_agenda settled monitor consumer]
    exact congrArg Agenda.expire (foldl_note taken _)
  have tracks := fun k => (h.tracks k).settled ahead
  have time : s.now = a.session.now := h.now.trans now
  rw [settle_eq]
  refine ⟨?_, ?_, ⟨running, generations, idle, h.consumer, ?_, fun k => ?_, ?_⟩, h.bounded, ahead⟩
  · rw [expired]
    exact time
  · rw [expired, h.monitor, monitor]
    have same : s.monitor.registry = registry := by
      refine Registry.ext_find? ?_ ?_ fun k => ?_
      · rw [h.capacity, monitor]
        exact capacity.symm
      · rw [h.reserved, monitor]
        exact reserved.symm
      · rw [h.find, find, monitor]
        have released_iff := (tracks k).2
        rw [time, now] at released_iff
        exact if_congr released_iff rfl rfl
    rw [same]
  · rw [expired]
    exact consumer
  · have tracked := (tracks k).1
    rw [now, time] at tracked
    rw [time]
    exact tracked
  · refine .inr fun runs => settled.tryRecv ?_
    rw [isConsuming, h.consumer]
    exact runs

end Settled

theorem Agrees.step {s s' : Session} {a : Agenda} (h : Agrees s a) {st : Step}
    (instant : st.Instant) (settles : Settles (s.act st).2.2 s') : Agrees s' (a.step st) := by
  obtain ⟨running, generations, idle, consumer, agenda, tracks, rested⟩ := h.consumers
  obtain ⟨now, monitor, running', act₁, act₂, later, quiet⟩ :=
    act_of_instant instant h.now h.monitor consumer agenda rfl
  have start : Settling (s.act st).2.2 a.delay running' a.deadlines (s.act st).2.2 [] []
      generations := by
    rw [act₁]
    have bounded := fun t ht => Nat.le_trans (h.bounded t ht) (Nat.add_le_add_right later _)
    refine ⟨rfl, rfl, rfl, rfl, rfl, fun k => rfl, ⟨0, rfl⟩, fun _ => ⟨rfl, rfl⟩, bounded,
      fun k => ?_, .inr ?_⟩
    · simpa [noted] using (tracks k).later later
    · rcases quiet with rfl | ⟨rfl, rfl⟩
      · exact .inl ⟨h.ahead, rfl⟩
      · rcases rested with none_waits | stuck
        · exact .inl ⟨by simp [none_waits], rfl⟩
        · exact .inr stuck
  obtain ⟨taken, cleared, generations', done⟩ := start.works settles.1
  have same : ({ a with session := (a.session.act st).2.2 } : Agenda).session.consumer =
      some ⟨none, running', idle⟩ := by
    rw [act₂]
  exact Settling.agrees (a := { a with session := (a.session.act st).2.2 }) done settles.2
    (by rw [act₁, act₂]) (by rw [act₁, act₂]) same

theorem Agrees.runs {s s' : Session} {a : Agenda} {steps : List Step} (h : Agrees s a)
    (instant : ∀ st ∈ steps, st.Instant) (runs : Runs s steps s') : Agrees s' (a.run steps) := by
  induction runs generalizing a with
  | done s => exact h
  | step settles _ ih =>
    rw [Agenda.run, List.foldl_cons]
    exact ih (h.step (instant _ (by simp)) settles) fun st hst => instant st (by simp [hst])

theorem Agrees.newest {s : Session} {a : Agenda} (h : Agrees s a) (k : Key) :
    (s.newest? k).map (·.due) = a.deadlines k := by
  obtain ⟨running, generations, idle, consumer, -, tracks, -⟩ := h.consumers
  have tracked := tracks k
  rw [newest?, consumer]
  simp only [Option.bind_some]
  cases current : generations k with
  | none =>
    rw [current] at tracked
    obtain ⟨-, ⟨none_due, -⟩ | ⟨-, -, -, impossible⟩⟩ := tracked
    · rw [none_due]
      rfl
    · exact impossible.elim
  | some generation =>
    rw [current] at tracked
    exact tracked.find? h.ahead

/-- In whatever order the consumer and the timers do their work, after every step the monitor is
the one of an agenda, with all its gates, and the timers that will still release a gate stand for
the deadlines of the agenda.  Delays beyond the longest one count as the longest. -/
theorem rearm_refines_deadlines (m : Monitor) (delay : Nat) (steps : List Step) (s : Session)
    (instant : ∀ st ∈ steps, st.Instant) (runs : Runs (.new m true (some delay)) steps s) :
    let a := (Agenda.new m (min delay Consumer.maxDelay)).run steps
    s.monitor = a.session.monitor ∧ ∀ k, (s.newest? k).map (·.due) = a.deadlines k := by
  have agrees := (agrees_new m delay).runs instant runs
  exact ⟨agrees.monitor, agrees.newest⟩

/-- One key, released by hand after its signal and gated again by another signal. -/
def gatedTwice : List Step :=
  [.monitor [.store ⟨2, 10, 1⟩, .register (.port 1), .transition 0 (.port 1) .closed],
    .advance 100, .monitor [.clearGate (.port 1), .transition 0 (.port 1) .closed], .advance 150]

/-- The timer of the first signal is due by now, and leaves the gate to that of the second. -/
theorem rearm_refines_deadlines_gatedTwice :
    (∀ st ∈ gatedTwice, st.Instant) ∧ ∃ s,
      Runs (.new (.new ⟨.latched, 16, 1, 8⟩) true (some 200)) gatedTwice s ∧
      s.monitor = ((Agenda.new (.new ⟨.latched, 16, 1, 8⟩) (min 200 Consumer.maxDelay)).run
        gatedTwice).session.monitor ∧
      s.monitor.stats? (.port 1) = some (.port 1, ⟨0, 0, true⟩) ∧
      (s.newest? (.port 1)).map (·.due) = some 300 := by
  have instant : ∀ st ∈ gatedTwice, st.Instant := by decide
  have runs := runs_run gatedTwice (.new (.new ⟨.latched, 16, 1, 8⟩) true (some 200))
  have refines := rearm_refines_deadlines _ 200 gatedTwice _ instant runs
  exact ⟨instant, _, runs, refines.1, by decide +kernel, by decide +kernel⟩

/-- A delay beyond the longest one ends before its time. -/
theorem not_rearm_refines_unbounded_delay :
    ¬∀ (m : Monitor) (delay : Nat) (steps : List Step) (s : Session),
      (∀ st ∈ steps, st.Instant) → Runs (.new m true (some delay)) steps s →
        ∀ k, s.monitor.stats? k = ((Agenda.new m delay).run steps).session.monitor.stats? k := by
  intro claim
  have same := claim (.new ⟨.latched, 16, 1, 8⟩) (Consumer.maxDelay + 1)
    [.monitor [.store ⟨2, 10, 1⟩, .register (.port 1), .transition 0 (.port 1) .closed],
      .advance Consumer.maxDelay] _ (by decide) (runs_run _ _) (.port 1)
  revert same
  decide +kernel

end ScaleWatch.Session
