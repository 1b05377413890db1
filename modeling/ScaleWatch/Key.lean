import ScaleWatch.Text.Numeral

/-!
# Keys of monitored units

A unit is watched under a key: a network namespace, by its inode number, or a port. The two kinds
are separate spaces, so `netns:80` and `port:80` never share anything. Keys are ordered, all
namespaces before all ports and by number within a kind, and `Key.text` is the one text form in
which they are ever written.
-/

namespace ScaleWatch

inductive Key where
  | netns (id : UInt32)
  | port (number : UInt16)
  deriving DecidableEq

namespace Key

/-! ### Order -/

/-- The place of a key among all keys. -/
def rank : Key → Nat
  | netns id => id.toNat
  | port number => UInt32.size + number.toNat

instance : LT Key := ⟨fun a b => a.rank < b.rank⟩

instance : LE Key := ⟨fun a b => a.rank ≤ b.rank⟩

instance (a b : Key) : Decidable (a < b) := inferInstanceAs (Decidable (a.rank < b.rank))

instance (a b : Key) : Decidable (a ≤ b) := inferInstanceAs (Decidable (a.rank ≤ b.rank))

theorem lt_iff_rank {a b : Key} : a < b ↔ a.rank < b.rank := Iff.rfl

theorem rank_inj {a b : Key} : a.rank = b.rank ↔ a = b := by
  constructor
  · intro h
    cases a with
    | netns i =>
      cases b with
      | netns j => exact congrArg netns (UInt32.toNat_inj.1 h)
      | port n => have := i.toNat_lt; simp only [rank, UInt32.size] at h; omega
    | port m =>
      cases b with
      | netns j => have := j.toNat_lt; simp only [rank, UInt32.size] at h; omega
      | port n => exact congrArg port (UInt16.toNat_inj.1 (Nat.add_left_cancel h))
  · exact congrArg rank

/-! ### Text form -/

open Text in
def chars : Key → List Char
  | netns id => "netns:".toList ++ Numeral.digits id.toNat
  | port number => "port:".toList ++ Numeral.digits number.toNat

def text (k : Key) : String :=
  String.ofList k.chars

/-- The distinct keys of a list, in order. -/
def sortDistinct (keys : List Key) : List Key :=
  (keys.mergeSort (· ≤ ·)).foldr (fun k rest => if rest.head? = some k then rest else k :: rest) []

end Key

end ScaleWatch
