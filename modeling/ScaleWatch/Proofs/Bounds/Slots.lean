import ScaleWatch.Bounds.Slots

/-!
# Slots that hold bounds

Each number has a word of its own, and a slot without a number has one that no number has
(`Slot.wordOf_injective`); so the word of a slot and what is read from it tell each other.  Slots in
which all three numbers of some bounds stand have these bounds in force exactly if they are
consistent, and bounds in force stand in the slots.  Bounds that are stored must be consistent,
whereas any value can be written into one of the three slots.
-/

namespace ScaleWatch.Bounds

theorem check_of_inverted {b : Bounds} (inverted : b.upper ≤ b.lower) :
    b.check = .error (.invertedBounds b.lower b.upper) :=
  if_pos inverted

theorem check_of_zero_length {b : Bounds} (ordered : b.lower < b.upper)
    (zero : b.bufferLength = 0) : b.check = .error .zeroBufferLength := by
  rw [check, if_neg (UInt32.not_le.2 ordered), if_pos zero]

theorem Parts.bounds?_eq_some_iff {p : Parts} {b : Bounds} :
    p.bounds? = some b ↔ p = ⟨some b.lower, some b.upper, some b.bufferLength⟩ := by
  constructor
  · intro whole
    obtain ⟨lower, upper, bufferLength⟩ := p
    cases lower <;> cases upper <;> cases bufferLength <;> cases whole
    rfl
  · rintro rfl
    rfl

/-! ### One slot -/

namespace Slot

variable {s : Slot} {n : UInt32}

theorem value?_eq_none_iff : s.value? = none ↔ s = empty := by
  constructor
  · intro nothing
    obtain ⟨word, written⟩ := s
    rw [value?] at nothing
    split at nothing
    · next same =>
      cases same
      rfl
    · cases nothing
  · rintro rfl
    exact value?_empty

theorem value?_eq_some_iff : s.value? = some n ↔ s = holding n := by
  constructor
  · intro read
    obtain ⟨word, written⟩ := s
    rw [value?] at read
    split at read
    · cases read
    · next other =>
      have fits : word.toNat < UInt32.size := written other
      have narrowed : word.toUInt32 = n := Option.some.inj read
      have same : word = n.toUInt64 := by
        rw [← narrowed, ← UInt64.toNat_inj, UInt32.toNat_toUInt64, UInt64.toNat_toUInt32]
        exact (Nat.mod_eq_of_lt fits).symm
      cases same
      rfl
  · rintro rfl
    exact value?_holding n

/-- The word that stands for a number, or for none. -/
def wordOf (value : Option UInt32) : UInt64 :=
  value.elim unwritten UInt32.toUInt64

theorem wordOf_injective : Function.Injective wordOf := by
  rintro (_ | n) (_ | n') same
  · rfl
  · exact absurd same.symm (toUInt64_ne_unwritten n')
  · exact absurd same (toUInt64_ne_unwritten n)
  · exact congrArg some (UInt32.toUInt64_inj.1 same)

theorem word_eq (s : Slot) : s.word = wordOf s.value? := by
  rcases read : s.value? with _ | n
  · rw [value?_eq_none_iff.1 read]
    rfl
  · rw [value?_eq_some_iff.1 read]
    rfl

end Slot

/-! ### Three slots -/

namespace Slots

def words (s : Slots) : List UInt64 :=
  [s.lower.word, s.upper.word, s.bufferLength.word]

theorem words_eq (s : Slots) : s.words = s.toList.map Slot.wordOf := by
  rw [words, s.lower.word_eq, s.upper.word_eq, s.bufferLength.word_eq]
  rfl

theorem parts_ofBounds (b : Bounds) :
    (ofBounds b).parts = ⟨some b.lower, some b.upper, some b.bufferLength⟩ := by
  simp [ofBounds, parts]

theorem ofBounds_injective : Function.Injective ofBounds := by
  intro b b' same
  have parts := congrArg Slots.parts same
  rw [parts_ofBounds, parts_ofBounds] at parts
  cases b
  cases b'
  cases parts
  rfl

theorem active?_ofBounds (b : Bounds) :
    (ofBounds b).active? = if b.Consistent then some b else none := by
  rw [active?, Parts.bounds?_eq_some_iff.2 (parts_ofBounds b)]
  simp [Option.filter]

theorem eq_ofBounds_iff {s : Slots} {b : Bounds} :
    s = ofBounds b ↔ s.toList = [some b.lower, some b.upper, some b.bufferLength] := by
  obtain ⟨lower, upper, bufferLength⟩ := s
  simp [ofBounds, toList, parts, Parts.toList, Slot.value?_eq_some_iff]

theorem eq_ofBounds_of_active? {s : Slots} {b : Bounds} (h : s.active? = some b) :
    s = ofBounds b := by
  have whole : s.parts.bounds? = some b := (Option.filter_eq_some_iff.1 h).1
  rw [eq_ofBounds_iff, toList, Parts.bounds?_eq_some_iff.1 whole]
  rfl

theorem active?_eq_some_iff {s : Slots} {b : Bounds} :
    s.active? = some b ↔ s = ofBounds b ∧ b.Consistent := by
  constructor
  · intro h
    refine ⟨eq_ofBounds_of_active? h, ?_⟩
    rw [eq_ofBounds_of_active? h, active?_ofBounds, Option.ite_none_right_eq_some] at h
    exact h.1
  · rintro ⟨rfl, consistent⟩
    rw [active?_ofBounds, if_pos consistent]

/-! ### Writing -/

theorem store_of_consistent {b : Bounds} (consistent : b.Consistent) (s : Slots) :
    s.store b = .ok (ofBounds b) := by
  rw [store, check_eq_ok_iff.2 consistent]
  rfl

theorem store_of_check {b : Bounds} {fault : Fault} (refused : b.check = .error fault)
    (s : Slots) : s.store b = .error fault := by
  rw [store, refused]
  rfl

theorem write_of_unknown {index : Nat} (unknown : 2 < index) (value : UInt32) (s : Slots) :
    s.write index value = .error (.unknownSlot index) := by
  unfold write
  split <;> first | omega | rfl

end Slots

end ScaleWatch.Bounds
