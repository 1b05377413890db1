import Mathlib.Data.List.Perm.Subperm
import ScaleWatch.Proofs.Channel.Sent
import ScaleWatch.Proofs.Monitor.Effect

/-!
# A journal of evaluations and receipts

A journal is kept beside a monitor.  It writes down every evaluation of a key with the
registration it fell into, numbers every signal with the evaluation that sent it, and writes down
every signal that is received.  The monitor runs as it would without (`monitor_run`), and the
receipts are the signals in its answers (`signals_run`).  What a journal adds are the words for
where a received signal comes from.
-/

namespace ScaleWatch

/-- An evaluation of a key, as it was asked for and answered. -/
structure Evaluation where
  /-- The registration of the key at that time, counted from 1, if there was one. -/
  term : Option Nat
  bounds : Bounds
  count : UInt32
  fired : Option Direction

/-- A signal that was received, and how many evaluations of its key had been made by then. -/
structure Receipt where
  sent : Sent
  made : Nat

/-- What an event or an evaluation fired. -/
def Monitor.Answer.fired? : Monitor.Answer → Option Direction
  | .signal fired => fired
  | _ => none

structure Journal where
  monitor : Monitor
  /-- How often each key was registered. -/
  terms : Key → Nat
  /-- The evaluations of each key, oldest first. -/
  evaluations : Key → List Evaluation
  /-- What is queued in the channel, with its origins. -/
  slots : List (List Sent)
  receipts : List Receipt

namespace Journal

def new (s : Monitor.Settings) : Journal where
  monitor := .new s
  terms := fun _ => 0
  evaluations := fun _ => []
  slots := Sent.empty (Monitor.new s).channel.slots
  receipts := []

/-- The registration that a key is in. -/
def term? (k : Key) (j : Journal) : Option Nat :=
  if j.monitor.registry.contains k then some (j.terms k) else none

/-- The signal of the next evaluation of a key, if it fires. -/
def next (k : Key) (b : Bounds) (d : Direction) (j : Journal) : Sent :=
  ⟨⟨k, d, some b.bufferLength⟩, (j.evaluations k).length⟩

/-- Write down an evaluation, and number the signal that it sends. -/
def judge (worker : Nat) (k : Key) (b : Bounds) (count : UInt32) (fired : Option Direction)
    (j : Journal) : Journal :=
  { j with
    evaluations := fun k' =>
      if k' = k then j.evaluations k ++ [⟨j.term? k, b, count, fired⟩] else j.evaluations k'
    slots := match fired with
      | some d => Sent.put worker (j.next k b d) j.monitor.channel j.slots
      | none => j.slots }

/-- Write down the signals that are received. -/
def take (limit : Nat) (j : Journal) : Journal :=
  let (taken, left) := Sent.takeUpTo limit j.monitor.channel j.slots
  { j with
    slots := left
    receipts := j.receipts ++ taken.map fun x => ⟨x, (j.evaluations x.signal.key).length⟩ }

/-- Write down what an operation does, before it is done. -/
def note (op : Monitor.Op) (j : Journal) : Journal :=
  match j.monitor.effect op with
  | .watch k => { j with terms := fun k' => if k' = k then j.terms k + 1 else j.terms k' }
  | .judge worker k _ b count => j.judge worker k b count (j.monitor.step op).1.fired?
  | .take limit => j.take limit
  | .close => { j with slots := Sent.empty j.slots }
  | .idle | .forget _ | .release _ | .move _ _ => j

def step (op : Monitor.Op) (j : Journal) : Journal :=
  { j.note op with monitor := (j.monitor.step op).2 }

def run (ops : List Monitor.Op) (j : Journal) : Journal :=
  ops.foldl (fun j op => j.step op) j

/-! ### The monitor and its answers -/

theorem monitor_run (ops : List Monitor.Op) (j : Journal) :
    (j.run ops).monitor = (Monitor.run ops j.monitor).2 := by
  induction ops generalizing j with
  | nil => rfl
  | cons op ops ih => exact ih (j.step op)

/-! ### Signals on their way -/

/-- All signals that are on their way or have arrived. -/
def sent (j : Journal) : List Sent :=
  j.receipts.map (·.sent) ++ j.slots.flatten

theorem map_receipts_take (limit : Nat) (j : Journal) :
    (j.take limit).receipts.map (·.sent) =
      j.receipts.map (·.sent) ++ (Sent.takeUpTo limit j.monitor.channel j.slots).1 := by
  show (j.receipts ++ List.map _ _).map _ = _
  rw [List.map_append, List.map_map]
  exact congrArg _ (List.map_id _)

theorem sent_take {j : Journal} (beside : Sent.Beside j.slots j.monitor.channel) (limit : Nat) :
    (j.take limit).sent.Perm j.sent := by
  rw [sent, map_receipts_take, List.append_assoc]
  exact (beside.takeUpTo limit).2.2.append_left _

theorem sent_judge {j : Journal} (beside : Sent.Beside j.slots j.monitor.channel) (worker : Nat)
    (k : Key) (b : Bounds) (count : UInt32) (fired : Option Direction) :
    (j.judge worker k b count fired).sent.Subperm
      (fired.elim j.sent fun d => j.next k b d :: j.sent) := by
  cases fired with
  | none => exact List.Subperm.refl _
  | some d =>
    show (_ ++ (Sent.put worker (j.next k b d) j.monitor.channel j.slots).flatten).Subperm _
    rcases Sent.perm_put beside worker (j.next k b d) with joined | refused
    · exact ((joined.append_left _).trans List.perm_middle).subperm
    · rw [refused]
      exact (List.sublist_cons_self _ _).subperm

end Journal

end ScaleWatch
