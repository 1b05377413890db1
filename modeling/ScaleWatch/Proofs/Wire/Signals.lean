import ScaleWatch.Proofs.Wire.Events
import ScaleWatch.Session

/-!
# Signals that are printed are read

The line that is printed for a signal is one line, and it is read as that signal.  A signal without
a buffer length has no such member, and the field is then left as it was.
-/

namespace ScaleWatch

namespace Wire

open Json

theorem direction_toJson (d : Direction) :
    Shape.word Direction.ofToken? d.toJson.outline = .ok d := by
  cases d <;> rfl

theorem word32_number (n : UInt32) : word32 (Json.number n.toNat).outline = .ok n := by
  have inside : n.toNat ≤ UInt32.size - 1 := Nat.le_sub_one_of_lt n.toNat_lt
  simp only [outline, word32, Literal.ofNat, Shape.natural, inside, if_true, Except.map,
    UInt32.ofNat_toNat]

theorem optional_word32_number (n : UInt32) :
    Shape.optional word32 (Json.number n.toNat).outline = .ok (some n) :=
  congrArg (Except.map some) (word32_number n)

theorem signal_toJson (s : Signal) : signal s.toJson.outline = .ok s := by
  obtain ⟨k, d, length⟩ := s
  have key_set := congrArg (Except.map fun k => SignalParts.mk (some k) none none) (key_toJson k)
  have direction_set := congrArg (Except.map fun d => SignalParts.mk (some k) (some d) none)
    (direction_toJson d)
  simp only [Signal.toJson, outline, signal, Shape.record]
  cases length with
  | none =>
    simp only [Option.map_none, Option.toList_none, outlineMembers] at key_set direction_set ⊢
    rw [Shape.fillFromMembers_cons ⟨some k, none, none⟩ rfl rfl key_set,
      Shape.fillFromMembers_cons ⟨some k, some d, none⟩ rfl rfl direction_set]
    rfl
  | some n =>
    have length_set := congrArg (Except.map fun n => SignalParts.mk (some k) (some d) (some n))
      (optional_word32_number n)
    simp only [Option.map_some, Option.toList_some, outlineMembers] at key_set direction_set ⊢
    rw [Shape.fillFromMembers_cons ⟨some k, none, none⟩ rfl rfl key_set,
      Shape.fillFromMembers_cons ⟨some k, some d, none⟩ rfl rfl direction_set,
      Shape.fillFromMembers_cons ⟨some k, some d, some (some n)⟩ rfl rfl length_set]
    rfl

end Wire

theorem Signal.ofJsonText_chars (s : Signal) : Signal.ofJsonText s.toJson.chars = .ok s := by
  rw [ofJsonText, Json.decode_chars, Wire.signal_toJson]

theorem Signal.toList_line (s : Signal) : s.line.toList = s.toJson.chars := by
  rw [line, Json.text, String.toList_ofList]

theorem Signal.ofJsonText_line (s : Signal) : Signal.ofJsonText s.line.toList = .ok s := by
  rw [toList_line, ofJsonText_chars]

theorem Signal.feed_not_mem_line (s : Signal) : '\n' ∉ s.line.toList := by
  rw [toList_line]
  exact Json.feed_not_mem_chars s.toJson

end ScaleWatch
