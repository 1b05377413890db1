import ScaleWatch.Proofs.Monitor.Accounting
import ScaleWatch.Proofs.Monitor.Gates

/-!
# The signal that an operation sends

An operation sends at most one signal, `Monitor.sent?`: that of the evaluation that fires.  All that
an operation does to the channel from the emitting end, to the counters of signals and to its own
answer is a matter of this signal and of whether the channel accepts it.
-/

namespace ScaleWatch

/-- A counter is counted up by what is posted to it, in 64 bits. -/
theorem Metrics.value_foldl_post (c : Counter) (posted : List Counter) (m : Metrics) :
    (posted.foldl post m).value c = m.value c + .ofNat (posted.count c) := by
  induction posted generalizing m with
  | nil => exact (UInt64.add_zero _).symm
  | cons first rest ih =>
    rw [List.foldl_cons, ih, value_post, List.count_cons]
    by_cases here : first = c
    · rw [if_pos here, if_pos (beq_iff_eq.2 here), UInt64.ofNat_add, UInt64.add_assoc]
      exact congrArg _ (UInt64.add_comm _ _)
    · rw [if_neg here, if_neg (by simpa using here), Nat.add_zero]

namespace Monitor

/-- The signal that an effect sends, accepted or not. -/
def Effect.sends? (m : Monitor) : Effect → Option Signal
  | judge _ k t b count => (m.fired k t b count).map (⟨k, ·, some b.bufferLength⟩)
  | _ => none

/-- The signal of the evaluation that an operation fires, if it does. -/
def sent? (op : Op) (m : Monitor) : Option Signal :=
  (m.effect op).sends? m

variable {op : Op} {m : Monitor} {s : Signal}

theorem sent?_of_judge {worker : Nat} {k : Key} {t : Option Transition} {b : Bounds}
    {count : UInt32} (h : m.effect op = .judge worker k t b count) :
    m.sent? op = (m.fired k t b count).map (⟨k, ·, some b.bufferLength⟩) := by
  rw [sent?, h]
  rfl

/-- A signal that is sent tells the key, the direction and the buffer length of its evaluation. -/
theorem judge_of_sent? (h : m.sent? op = some s) :
    ∃ t b count, m.effect op = .judge op.worker s.key t b count ∧
      m.fired s.key t b count = some s.direction ∧ s.bufferLength = some b.bufferLength := by
  unfold sent? Effect.sends? at h
  split at h
  · next worker k t b count judged =>
    obtain ⟨d, fired, rfl⟩ := Option.map_eq_some_iff.1 h
    obtain ⟨-, rfl⟩ := named_of_judge judged
    exact ⟨t, b, count, judged, fired, rfl⟩
  · cases h

theorem firing?_eq_sent? (op : Op) (m : Monitor) :
    m.firing? op = (m.sent? op).map fun s => (s.key, s.direction) := by
  rcases sent : m.sent? op with _ | s
  · by_contra fires
    obtain ⟨⟨k, d⟩, firing⟩ := Option.ne_none_iff_exists'.1 fires
    obtain ⟨t, b, count, judged, fired⟩ := judge_of_firing? firing
    rw [sent?_of_judge judged, fired] at sent
    cases sent
  · obtain ⟨t, b, count, judged, fired, -⟩ := judge_of_sent? sent
    rw [firing?_of_judge judged, fired]
    rfl

theorem isSignal_eq_isSome_fired? (a : Answer) : a.isSignal = a.fired?.isSome := by
  rcases a with _ | _ | _ | _ | _ | (_ | d) | _ | _ | _ | _ <;> rfl

theorem isSignal_step (op : Op) (m : Monitor) :
    (m.step op).1.isSignal = (m.sent? op).isSome := by
  rw [isSignal_eq_isSome_fired?]
  rcases sent : m.sent? op with _ | s
  · rcases fired : (m.step op).1.fired? with _ | d
    · rfl
    · obtain ⟨worker, k, t, b, count, judged⟩ := judge_of_fired? fired
      rw [answer_of_judge judged] at fired
      rw [sent?_of_judge judged, Option.map_eq_none_iff] at sent
      rw [sent] at fired
      cases fired
  · obtain ⟨t, b, count, judged, fired, -⟩ := judge_of_sent? sent
    rw [answer_of_judge judged, fired]
    rfl

/-- From the emitting end, a channel changes only by the signal that is sent. -/
theorem channel_step (direct : op.isOnStream = false) :
    (m.step op).2.channel =
      (m.sent? op).elim m.channel fun s => (m.channel.emit op.worker s).2 := by
  rcases sent : m.sent? op with _ | s
  · exact channel_of_not_firing direct (by rw [firing?_eq_sent?, sent]; rfl)
  · obtain ⟨t, b, count, judged, fired, same⟩ := judge_of_sent? sent
    rw [(leads_step op m).channel, judged]
    simp only [Effect.onChannel, fired, ← same]
    rfl

theorem count_emitted_eq (op : Op) (m : Monitor) :
    (m.postings op).count .emitted =
      if (m.sent? op).isSome ∧ m.channel.accepts op.worker then 1 else 0 := by
  rw [count_emitted_postings]
  rcases sent : m.sent? op with _ | s
  · cases effect : m.effect op with
    | judge worker k t b count =>
      rw [sent?_of_judge effect, Option.map_eq_none_iff] at sent
      simp [Effect.accepted, sent]
    | _ => simp [Effect.accepted]
  · obtain ⟨t, b, count, judged, fired, -⟩ := judge_of_sent? sent
    rw [judged, Effect.accepted, fired]
    rfl

/-- A signal that is sent is either emitted or dropped. -/
theorem count_dropped_eq (op : Op) (m : Monitor) :
    (m.postings op).count .dropped =
      if (m.sent? op).isSome ∧ m.channel.accepts op.worker = false then 1 else 0 := by
  have total := countP_signals_postings op m
  have emitted := count_emitted_eq op m
  rw [countP_isOfSignals, isSignal_step] at total
  cases sent : (m.sent? op).isSome <;> cases accepts : m.channel.accepts op.worker <;>
    simp [sent, accepts] at total emitted ⊢ <;> omega

end Monitor

end ScaleWatch
