import ScaleWatch.Proofs.Wire.Forms
import ScaleWatch.Proofs.Wire.Signals

/-!
# Signals and events keep their meaning on the wire

A text in any form of a signal or an event may be replaced by the text that is written for what is
read of it.  That text is the same for all texts of one record, it is read as that record, and no
other record has it: `records_round_trip`.
-/

namespace ScaleWatch.Wire

open Json Json.Shape

/-! ### Canonical texts -/

section Canonical

variable {α : Type} (read : List Char → Except Refusal α) (write : α → List Char)

/-- What is written for what is read. -/
def canonical (t : List Char) : Except Refusal (List Char) :=
  (read t).map write

/-- What is written is read, so that each text that is read has one canonical text. -/
structure RoundTrips : Prop where
  back : ∀ a, read (write a) = .ok a
  /-- The canonical text stands for what the text stood for, and is its own canonical text. -/
  stable : ∀ t a, read t = .ok a →
    ∃ c, canonical read write t = .ok c ∧ read c = .ok a ∧ canonical read write c = .ok c
  /-- Texts share a canonical text if they stand for the same, and only then. -/
  shared : ∀ t t' a a', read t = .ok a → read t' = .ok a' →
    (canonical read write t = canonical read write t' ↔ a = a')
  distinct : ∀ a b, a ≠ b → write a ≠ write b

variable {read write}

theorem canonical_of_read {t : List Char} {a : α} (h : read t = .ok a) :
    canonical read write t = .ok (write a) :=
  congrArg (Except.map write) h

theorem roundTrips_of_back (back : ∀ a, read (write a) = .ok a) : RoundTrips read write := by
  have inj : ∀ a b, write a = write b → a = b := fun a b same =>
    Except.ok.inj ((back a).symm.trans ((congrArg read same).trans (back b)))
  refine ⟨back, fun t a h => ?_, fun t t' a a' h h' => ?_, fun a b => mt (inj a b)⟩
  · exact ⟨write a, canonical_of_read h, back a, canonical_of_read (back a)⟩
  · rw [canonical_of_read h, canonical_of_read h']
    constructor
    · exact fun same => inj a a' (Except.ok.inj same)
    · rintro rfl
      rfl

end Canonical

/-! ### Signals and events -/

/-- An event has no direction. -/
theorem signal_event_toJson (s : Signal) (e : Event) : signal e.toJson.outline ≠ .ok s := by
  intro h
  rw [signal_eq_ok_iff, Event.toJson, outline] at h
  cases h with
  | object legible key keyForm direction => cases direction

theorem toJson_chars_ne (s : Signal) (e : Event) : s.toJson.chars ≠ e.toJson.chars := by
  intro same
  have read := s.ofJsonText_chars
  rw [same, Signal.ofJsonText, decode_chars] at read
  exact signal_event_toJson s e read

/-- Signals and events are read as they were written.  Texts that are read are those of the forms of
a signal or an event; each has a canonical text, which stands for the same and stays as it is, and
no two records have one text. -/
theorem records_round_trip :
    (RoundTrips Signal.ofJsonText fun s => s.toJson.chars) ∧
    (RoundTrips Event.ofJsonText fun e => e.toJson.chars) ∧
    (∀ t s, Signal.ofJsonText t = .ok s ↔ ∃ o, IsTextOf t o ∧ s.Form o) ∧
    (∀ t e, Event.ofJsonText t = .ok e ↔ ∃ o, IsTextOf t o ∧ e.Form o) ∧
    ∀ (s : Signal) (e : Event), s.toJson.chars ≠ e.toJson.chars := by
  refine ⟨roundTrips_of_back Signal.ofJsonText_chars, roundTrips_of_back Event.ofJsonText_chars,
    ?_, ?_, toJson_chars_ne⟩
  · intro t s
    simp only [Signal.ofJsonText, decode_eq_ok_iff, signal_eq_ok_iff]
  · intro t e
    simp only [Event.ofJsonText, decode_eq_ok_iff, event_eq_ok_iff]

/-- A signal as an array, its key in another spelling. -/
def otherwiseWritten : List Char :=
  "[\"\\tport:+0080 \", \x7b\"Upper\":null\x7d ,null]".toList

def itsCanonicalText : List Char :=
  "\x7b\"key\":\"port:80\",\"direction\":\"Upper\"\x7d".toList

theorem records_round_trip_otherwiseWritten :
    Signal.ofJsonText otherwiseWritten = .ok ⟨.port 80, .scaleUp, none⟩ ∧
      canonical Signal.ofJsonText (fun s => s.toJson.chars) otherwiseWritten =
        .ok itsCanonicalText ∧
      Signal.ofJsonText itsCanonicalText = .ok ⟨.port 80, .scaleUp, none⟩ := by
  have read : Signal.ofJsonText otherwiseWritten = .ok ⟨.port 80, .scaleUp, none⟩ := by
    decide +kernel
  have written : canonical Signal.ofJsonText (fun s => s.toJson.chars) otherwiseWritten =
      .ok itsCanonicalText := by
    decide +kernel
  obtain ⟨c, text, again, -⟩ := records_round_trip.1.stable _ _ read
  cases written.symm.trans text
  exact ⟨read, written, again⟩

end ScaleWatch.Wire
