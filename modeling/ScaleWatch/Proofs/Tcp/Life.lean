import Mathlib.Data.List.Infix
import ScaleWatch.Proofs.Pressure.FloorWalk

/-!
# The lives of connections

What the kernel reports of one connection is a beginning of a life: it is opened, it is
established, and one of four closings follows.  Two of the states of the closing that the peer
begins count as closed, so its life has the balance -1 at the end, while all others come back
to 0.  `IsLife.balance_of_settled` and `IsLife.le_balance` are this, for lives that are complete
enough and for beginnings of them.
-/

namespace ScaleWatch.Tcp

open Pressure (balance)

/-- The kernel's number of a state. -/
def State.code : State → UInt8
  | established => 1
  | synSent => 2
  | synRecv => 3
  | finWait1 => 4
  | finWait2 => 5
  | timeWait => 6
  | close => 7
  | closeWait => 8
  | lastAck => 9
  | listen => 10
  | closing => 11
  | newSynRecv => 12

theorem classify_code (s : State) : classify s.code = s.transition? := by
  cases s <;> rfl

/-- The states of a connection that is being opened. -/
def State.isOpening : State → Bool
  | synSent | synRecv | newSynRecv => true
  | _ => false

/-- The ways out of ESTABLISHED: the peer closes, this end closes, both close at once, or the
connection is reset. -/
def closings : List (List State) :=
  [[.closeWait, .lastAck, .close], [.finWait1, .finWait2, .timeWait, .close],
    [.finWait1, .closing, .timeWait, .close], [.close]]

/-- The states that a connection has entered so far, oldest first, are the beginning of a life. -/
def IsLife (states : List State) : Prop :=
  ∃ opening closing, (∀ s ∈ opening, s.isOpening) ∧ closing ∈ closings ∧
    states <+: opening ++ .established :: closing

/-- The transitions among the states entered. -/
def transitions (states : List State) : List Transition :=
  states.filterMap State.transition?

/-- A connection is settled when it is not in the middle of being closed. -/
def Settled (states : List State) : Prop :=
  .established ∈ states → states.getLast? = some .established ∨ .close ∈ states

/-! ### The two parts of a life -/

/-- States of connections that are being opened. -/
def Opening (states : List State) : Prop :=
  ∀ s ∈ states, s.isOpening

theorem Opening.not_mem {states : List State} (h : Opening states) {s : State}
    (other : s.isOpening = false) : s ∉ states := fun inside => by
  rw [h s inside] at other
  cases other

theorem Opening.transitions_eq_nil {states : List State} (h : Opening states) :
    transitions states = [] := by
  refine List.filterMap_eq_nil_iff.2 fun s hs => ?_
  have opening := h s hs
  cases s <;> first | rfl | cases opening

theorem Opening.of_isPrefix {earlier states : List State} (h : Opening states)
    (before : earlier <+: states) : Opening earlier := fun s hs => h s (before.subset hs)

theorem prefix_established {opening closing states : List State}
    (h : states <+: opening ++ .established :: closing) :
    states <+: opening ∨
      ∃ closed, closed <+: closing ∧ states = opening ++ .established :: closed := by
  rcases List.prefix_or_prefix_of_prefix h (List.prefix_append _ _) with short | ⟨rest, rfl⟩
  · exact .inl short
  rw [List.prefix_append_right_inj] at h
  rcases List.prefix_cons_iff.1 h with rfl | ⟨closed, rfl, part⟩
  · exact .inl (by simp)
  · exact .inr ⟨closed, part, rfl⟩

/-- A life is still opening, or it is established after that and has made part of a closing. -/
theorem IsLife.cases {states : List State} (h : IsLife states) :
    Opening states ∨ ∃ opening closed closing, Opening opening ∧ closing ∈ closings ∧
      closed <+: closing ∧ states = opening ++ .established :: closed := by
  obtain ⟨opening, closing, opens, closes, begins⟩ := h
  rcases prefix_established begins with short | ⟨closed, part, rfl⟩
  · exact .inl (Opening.of_isPrefix opens short)
  · exact .inr ⟨opening, closed, closing, opens, closes, part, rfl⟩

/-! ### Balances -/

/-- One for a life that was closed by the peer, else none. -/
def passive (states : List State) : Int :=
  if .closeWait ∈ states then 1 else 0

/-- One for a life that is in ESTABLISHED, else none. -/
def live (states : List State) : Int :=
  if states.getLast? = some .established then 1 else 0

section Balances

variable {opening closed states : List State}

theorem mem_established_iff (opens : Opening opening) {s : State} (other : s.isOpening = false)
    (ne : s ≠ .established) : s ∈ opening ++ .established :: closed ↔ s ∈ closed := by
  rw [List.mem_append, List.mem_cons]
  exact ⟨fun h => (h.resolve_left (opens.not_mem other)).resolve_left ne, fun h => .inr (.inr h)⟩

theorem passive_established (opens : Opening opening) :
    passive (opening ++ .established :: closed) = passive closed := by
  exact if_congr (mem_established_iff opens rfl (by decide)) rfl rfl

theorem live_established (opening closed : List State) :
    live (opening ++ .established :: closed) = live (.established :: closed) := by
  unfold live
  rw [List.getLast?_append_of_ne_nil _ (List.cons_ne_nil _ _)]

theorem transitions_established (opens : Opening opening) (closed : List State) :
    transitions (opening ++ .established :: closed) = transitions (.established :: closed) := by
  rw [transitions, List.filterMap_append, show List.filterMap _ opening = [] from
    opens.transitions_eq_nil, List.nil_append]
  rfl

theorem Opening.passive_eq_zero (h : Opening states) : passive states = 0 :=
  if_neg (h.not_mem rfl)

theorem Opening.live_eq_zero (h : Opening states) : live states = 0 :=
  if_neg fun last => h.not_mem rfl (List.mem_of_getLast? last)

theorem Opening.balance_eq_zero (h : Opening states) : balance (transitions states) = 0 := by
  rw [h.transitions_eq_nil]
  rfl

/-- What is to be known of the closings, and of the parts of them that were made by two moments, is
found by looking at all of them. -/
theorem closings_spec :
    ∀ closing ∈ closings, ∀ closed ∈ closing.inits,
      (.established :: closed).getLast? = some State.established ∨ .close ∈ closed →
      balance (transitions (.established :: closed)) =
        live (.established :: closed) - passive closed := by
  decide

theorem count_established_closings :
    ∀ closing ∈ closings, ∀ closed ∈ closing.inits,
      (transitions (.established :: closed)).count .established = 1 := by
  decide

theorem closings_before_spec :
    ∀ closing ∈ closings, ∀ closed ∈ closing.inits, ∀ earlier ∈ closed.inits,
      -passive closed ≤ balance (transitions (.established :: earlier)) ∧
      (balance (transitions (.established :: earlier)) = -passive closed ↔
        .close ∈ earlier ∧ (.closeWait ∈ closed → .close ∈ earlier)) := by
  decide

theorem IsLife.count_established_le (h : IsLife states) :
    (transitions states).count .established ≤ 1 := by
  rcases h.cases with opens | ⟨opening, closed, closing, opens, closes, part, rfl⟩
  · simp [opens.transitions_eq_nil]
  · rw [transitions_established opens]
    exact (count_established_closings closing closes closed ((List.mem_inits _ _).2 part)).le

/-- A settled life counts for one while it is in ESTABLISHED, and against one once it was closed by
the peer. -/
theorem IsLife.balance_of_settled (h : IsLife states) (settled : Settled states) :
    balance (transitions states) = live states - passive states := by
  rcases h.cases with opens | ⟨opening, closed, closing, opens, closes, part, rfl⟩
  · rw [opens.balance_eq_zero, opens.live_eq_zero, opens.passive_eq_zero]
    rfl
  · rw [transitions_established opens, live_established, passive_established opens]
    refine closings_spec closing closes closed ((List.mem_inits _ _).2 part) ?_
    have ended := settled (by simp)
    rwa [List.getLast?_append_of_ne_nil _ (List.cons_ne_nil _ _),
      mem_established_iff opens rfl (by decide)] at ended

/-- At no moment does a life count against more than one, and only if it is closed by the peer.  It
is there when it has been closed by then, and no life that is not closed by the peer counts. -/
theorem IsLife.le_balance (h : IsLife states) {earlier : List State} (before : earlier <+: states) :
    -passive states ≤ balance (transitions earlier) ∧
      (balance (transitions earlier) = -passive states ↔
        (.established ∈ earlier → .close ∈ earlier) ∧
          (.closeWait ∈ states → .close ∈ earlier)) := by
  rcases h.cases with opens | ⟨opening, closed, closing, opens, closes, part, rfl⟩
  · have still := opens.of_isPrefix before
    rw [still.balance_eq_zero, opens.passive_eq_zero]
    refine ⟨Int.le_refl 0, fun _ => ⟨?_, ?_⟩, fun _ => rfl⟩
    · exact fun established => absurd established (still.not_mem rfl)
    · exact fun closeWait => absurd closeWait (opens.not_mem rfl)
  rw [passive_established opens, mem_established_iff opens rfl (by decide)]
  rcases prefix_established before with short | ⟨made, within, rfl⟩
  · have still := opens.of_isPrefix short
    rw [still.balance_eq_zero]
    unfold passive
    have open_yet : .close ∉ earlier := still.not_mem rfl
    have not_established : .established ∉ earlier := still.not_mem rfl
    by_cases closeWait : .closeWait ∈ closed <;> simp [closeWait, open_yet, not_established]
  · have established : State.established ∈ opening ++ .established :: made := by simp
    have closed_iff : State.close ∈ opening ++ .established :: made ↔ .close ∈ made :=
      mem_established_iff opens rfl (by decide)
    rw [transitions_established opens, closed_iff, imp_iff_right established]
    exact closings_before_spec closing closes closed ((List.mem_inits _ _).2 part) made
      ((List.mem_inits _ _).2 within)

end Balances

end ScaleWatch.Tcp
