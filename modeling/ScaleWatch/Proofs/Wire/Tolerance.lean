import ScaleWatch.Proofs.Json.Reading
import ScaleWatch.Proofs.Wire.Forms

/-!
# Objects that tell a signal or an event

The text of an object tells a record by the members that bear the names of its fields, and by
nothing else.  They may stand in any order and be spelled in any way; between them may stand members
of other names, with values of any kind.  A text that tells a record is read as that record, and
what is refused lacks a field, has one twice, or gives one a value that it cannot have
(`told_or_refused`).
-/

namespace ScaleWatch

open Json Json.Shape

namespace Json

/-- The members of an object, in order. -/
abbrev Members := List (Option (List Char) × Outline)

/-- The text of an object, with white space around it. -/
def IsObject (t : List Char) (members : Members) : Prop :=
  ∃ p : Padded, p.text = t ∧ Spells p.chars (.object members true)

section IsObject

variable {t : List Char} {members : Members}

theorem decode_of_isObject {α : Type} {shape : Shape α} {a : α} (text : IsObject t members) :
    shape.decode t = .ok a ↔ shape (.object members true) = .ok a := by
  have whole : IsTextOf t (.object members true) := isTextOf_iff.2 text
  rw [decode_eq_ok_iff]
  constructor
  · rintro ⟨o, ⟨rest, read, -⟩, said⟩
    obtain ⟨rest', read', -⟩ := whole
    rwa [(Prod.mk.inj (read.symm.trans read')).1] at said
  · exact fun said => ⟨_, whole, said⟩

/-- In the text of an object every value is whole, so a member is legible if it has a name. -/
theorem legible_of_isObject (text : IsObject t members) (known : List String) :
    (∀ m ∈ members, Legible known m) ↔ ∀ m ∈ members, m.1 ≠ none := by
  obtain ⟨p, -, spells⟩ := text
  have whole := spells.intact
  rw [Outline.intact, intactMembers_eq_all, Bool.true_and, List.all_eq_true] at whole
  refine forall₂_congr fun m inside => ?_
  constructor
  · rintro ⟨name, named, -⟩
    rw [named]
    simp
  · intro named
    obtain ⟨name, named⟩ := Option.ne_none_iff_exists'.1 named
    exact ⟨name, named, fun _ => whole m inside⟩

/-- The members of the object that a text is, if it is one. -/
def objectOf? (t : List Char) : Option Members :=
  match Outline.read t with
  | (.object members true, some rest) =>
    if Outline.skipSpace rest = [] then some members else none
  | _ => none

theorem objectOf?_eq_some_iff : objectOf? t = some members ↔ IsObject t members := by
  rw [IsObject, ← isTextOf_iff, objectOf?, IsTextOf]
  constructor
  · intro found
    split at found
    · next rest read =>
      obtain ⟨blank, same⟩ := Option.ite_none_right_eq_some.1 found
      cases same
      exact ⟨rest, read, blank⟩
    · cases found
  · rintro ⟨rest, read, blank⟩
    simp only [read, if_pos blank]

theorem isObject_of_isSome (found : (objectOf? t).isSome = true) :
    IsObject t ((objectOf? t).getD []) := by
  obtain ⟨members, found⟩ := Option.isSome_iff_exists.1 found
  rw [found]
  exact objectOf?_eq_some_iff.1 found

end IsObject

end Json

/-! ### Fields -/

namespace Json.Shape

section Fields

variable {α : Type}

/-- The object has the field once, and the value is of the form. -/
def Holds (name : String) (form : α → Outline → Prop) (a : α) (members : Members) : Prop :=
  ∃ v, valuesOf name members = [v] ∧ form a v

/-- The object has the field twice, or with a value that has no form. -/
inductive Spoils (name : String) (form : α → Outline → Prop) (members : Members) : Prop
  | twice (again : 1 < (valuesOf name members).length)
  | formless {v} (inside : v ∈ valuesOf name members) (none : ∀ a, ¬form a v)

variable {name : String} {form : α → Outline → Prop} {a : α} {members : Members}

theorem exists_holds (present : valuesOf name members ≠ []) (sound : ¬Spoils name form members) :
    ∃ a, Holds name form a members := by
  obtain ⟨v, more, values⟩ := List.exists_cons_of_ne_nil present
  rcases more with _ | ⟨w, more⟩
  · by_contra formless
    refine sound (.formless (by rw [values]; exact List.mem_singleton_self v) fun a formed => ?_)
    exact formless ⟨a, v, values, formed⟩
  · exact absurd (.twice (by rw [values]; simp)) sound

/-- A field that the object has once, with a value that is read. -/
theorem holds_of_mapM {shape : Shape α} (reads : ∀ {v a}, shape v = .ok a → form a v)
    (values : (valuesOf name members).mapM shape = .ok [a]) : Holds name form a members := by
  rcases one : valuesOf name members with _ | ⟨v, more⟩
  · rw [one] at values
    cases values
  rw [one, List.mapM_cons, bind_eq_ok_iff] at values
  obtain ⟨a', read, values⟩ := values
  obtain ⟨later, rest, same⟩ := bind_eq_ok_iff.1 values
  cases same
  rcases more with _ | ⟨w, more⟩
  · exact ⟨v, one, reads read⟩
  · rw [List.mapM_cons, bind_eq_ok_iff] at rest
    obtain ⟨_, -, rest⟩ := rest
    obtain ⟨_, -, same⟩ := bind_eq_ok_iff.1 rest
    cases same

theorem Holds.present (holds : Holds name form a members) : valuesOf name members ≠ [] := by
  obtain ⟨v, values, -⟩ := holds
  rw [values]
  exact List.cons_ne_nil v []

theorem Holds.not_spoils (holds : Holds name form a members) : ¬Spoils name form members := by
  obtain ⟨v, values, formed⟩ := holds
  rintro (again | ⟨inside, none⟩)
  · rw [values] at again
    exact absurd again (Nat.lt_irrefl 1)
  · rw [values, List.mem_singleton] at inside
    exact none a (inside ▸ formed)

theorem not_spoils_of_absent (absent : valuesOf name members = []) :
    ¬Spoils name form members := by
  rintro (again | ⟨inside, -⟩)
  · rw [absent] at again
    cases again
  · rw [absent] at inside
    cases inside

end Fields

end Json.Shape

/-! ### Signals -/

namespace Signal

/-- The members tell the signal; the buffer length may be left out. -/
structure Told (s : Signal) (members : Members) : Prop where
  named : ∀ m ∈ members, m.1 ≠ none
  key : Holds "key" Key.Form s.key members
  direction : Holds "direction" Direction.Form s.direction members
  length : Holds "buffer_length" Wire.LengthForm s.bufferLength members ∨
    valuesOf "buffer_length" members = [] ∧ s.bufferLength = none

/-- The members tell no signal. -/
inductive Untold (members : Members) : Prop
  | nameless {m} (inside : m ∈ members) (none : m.1 = none)
  | noKey (absent : valuesOf "key" members = [])
  | noDirection (absent : valuesOf "direction" members = [])
  | key (spoils : Spoils "key" Key.Form members)
  | direction (spoils : Spoils "direction" Direction.Form members)
  | length (spoils : Spoils "buffer_length" Wire.LengthForm members)

variable {members : Members} {t : List Char}

theorem ofJsonText_of_isObject (text : IsObject t members) (s : Signal) :
    ofJsonText t = .ok s ↔ s.Told members := by
  rw [ofJsonText, decode_of_isObject text, Wire.signal_object_eq_ok_iff]
  constructor
  · rintro ⟨legible, key, keyForm, direction, directionForm, length⟩
    exact ⟨(legible_of_isObject text _).1 legible, ⟨_, key, keyForm⟩,
      ⟨_, direction, directionForm⟩, length.symm⟩
  · rintro ⟨named, ⟨_, key, keyForm⟩, ⟨_, direction, directionForm⟩, length⟩
    exact .object ((legible_of_isObject text _).2 named) key keyForm direction directionForm
      length.symm

theorem exists_told_iff : (∃ s, Told s members) ↔ ¬Untold members := by
  constructor
  · rintro ⟨s, told⟩ (⟨inside, none⟩ | absent | absent | spoils | spoils | spoils)
    · exact told.named _ inside none
    · exact told.key.present absent
    · exact told.direction.present absent
    · exact told.key.not_spoils spoils
    · exact told.direction.not_spoils spoils
    · rcases told.length with holds | ⟨absent, -⟩
      · exact holds.not_spoils spoils
      · exact not_spoils_of_absent absent spoils
  · intro told
    obtain ⟨k, key⟩ := exists_holds (mt .noKey told) (mt .key told)
    obtain ⟨d, direction⟩ := exists_holds (mt .noDirection told) (mt .direction told)
    have named : ∀ m ∈ members, m.1 ≠ none := fun m inside none => told (.nameless inside none)
    by_cases absent : valuesOf "buffer_length" members = []
    · exact ⟨⟨k, d, none⟩, named, key, direction, .inr ⟨absent, rfl⟩⟩
    · obtain ⟨n, length⟩ := exists_holds absent (mt .length told)
      exact ⟨⟨k, d, n⟩, named, key, direction, .inl length⟩

theorem refused_iff_untold (text : IsObject t members) :
    (∃ refusal, ofJsonText t = .error refusal) ↔ Untold members := by
  rw [exists_error_iff]
  simp only [ofJsonText_of_isObject text]
  rw [exists_told_iff, not_not]

end Signal

/-! ### Events -/

namespace Event

def StateForm (n : UInt8) (o : Outline) : Prop :=
  Wire.NumberForm n.toNat o

/-- The members tell the event. -/
structure Told (e : Event) (members : Members) : Prop where
  named : ∀ m ∈ members, m.1 ≠ none
  key : Holds "key" Key.Form e.key members
  state : Holds "state" StateForm e.state members

/-- The members tell no event. -/
inductive Untold (members : Members) : Prop
  | nameless {m} (inside : m ∈ members) (none : m.1 = none)
  | noKey (absent : valuesOf "key" members = [])
  | noState (absent : valuesOf "state" members = [])
  | key (spoils : Spoils "key" Key.Form members)
  | state (spoils : Spoils "state" StateForm members)

variable {members : Members} {t : List Char}

theorem ofJsonText_of_isObject (text : IsObject t members) (e : Event) :
    ofJsonText t = .ok e ↔ e.Told members := by
  rw [ofJsonText, decode_of_isObject text, Wire.event_object_eq_ok_iff]
  constructor
  · rintro ⟨legible, key, keyForm, state, stateForm⟩
    exact ⟨(legible_of_isObject text _).1 legible, ⟨_, key, keyForm⟩, ⟨_, state, stateForm⟩⟩
  · rintro ⟨named, ⟨_, key, keyForm⟩, ⟨_, state, stateForm⟩⟩
    exact .object ((legible_of_isObject text _).2 named) key keyForm state stateForm

theorem exists_told_iff : (∃ e, Told e members) ↔ ¬Untold members := by
  constructor
  · rintro ⟨e, told⟩ (⟨inside, none⟩ | absent | absent | spoils | spoils)
    · exact told.named _ inside none
    · exact told.key.present absent
    · exact told.state.present absent
    · exact told.key.not_spoils spoils
    · exact told.state.not_spoils spoils
  · intro told
    obtain ⟨k, key⟩ := exists_holds (mt .noKey told) (mt .key told)
    obtain ⟨n, state⟩ := exists_holds (mt .noState told) (mt .state told)
    exact ⟨⟨k, n⟩, fun m inside none => told (.nameless inside none), key, state⟩

theorem refused_iff_untold (text : IsObject t members) :
    (∃ refusal, ofJsonText t = .error refusal) ↔ Untold members := by
  rw [exists_error_iff]
  simp only [ofJsonText_of_isObject text]
  rw [exists_told_iff, not_not]

end Event

namespace Wire

/-! ### Any object -/

/-- The text of an object is read as the record that its members tell, and is refused exactly if
they tell none. -/
theorem told_or_refused {t : List Char} {members : Members} (text : IsObject t members) :
    (∀ s, Signal.ofJsonText t = .ok s ↔ s.Told members) ∧
    ((∃ refusal, Signal.ofJsonText t = .error refusal) ↔ Signal.Untold members) ∧
    (∀ e, Event.ofJsonText t = .ok e ↔ e.Told members) ∧
    ((∃ refusal, Event.ofJsonText t = .error refusal) ↔ Event.Untold members) :=
  ⟨Signal.ofJsonText_of_isObject text, Signal.refused_iff_untold text,
    Event.ofJsonText_of_isObject text, Event.refused_iff_untold text⟩

/-- The text of a signal among members of other names, with names and texts escaped. -/
def signalAmongOthers : List Char :=
  " \x7b\"note\" : \x7b\"key\":[-1.5e999, \"\\ud800\\\"\"] \x7d, \"dir\\u0065ction\"\t:\"Upper\",".toList ++
    "\"buffer_length\":null, \"\\ud83d\\ude00\":[[[\x7b\x7d]]],".toList ++
    "\"k\\u0065y\":\"\\u0070ort:+0080\"\x7d\n".toList

/-- The text of an object with two members that bear the name of the key. -/
def keyTwice : List Char :=
  "\x7b\"key\":\"port:80\",\"state\":1,\"direction\":\"Upper\",".toList ++
    "\"\\u006bey\":\"port:80\"\x7d".toList

theorem told_or_refused_amongOthers :
    IsObject signalAmongOthers ((objectOf? signalAmongOthers).getD []) ∧
    Signal.ofJsonText signalAmongOthers = .ok ⟨.port 80, .scaleUp, none⟩ ∧
    IsObject keyTwice ((objectOf? keyTwice).getD []) ∧
    (∃ refusal, Signal.ofJsonText keyTwice = .error refusal) ∧
    ∃ refusal, Event.ofJsonText keyTwice = .error refusal := by
  obtain ⟨found, named, key, direction, length⟩ :
      (objectOf? signalAmongOthers).isSome = true ∧
      (∀ m ∈ (objectOf? signalAmongOthers).getD [], m.1 ≠ none) ∧
      (valuesOf "key" ((objectOf? signalAmongOthers).getD [])).mapM Wire.key = .ok [.port 80] ∧
      (valuesOf "direction" ((objectOf? signalAmongOthers).getD [])).mapM
        (word Direction.ofToken?) = .ok [.scaleUp] ∧
      (valuesOf "buffer_length" ((objectOf? signalAmongOthers).getD [])).mapM
        (optional Wire.word32) = .ok [none] := by
    decide +kernel
  have among := isObject_of_isSome found
  have told : Signal.Told ⟨.port 80, .scaleUp, none⟩ ((objectOf? signalAmongOthers).getD []) :=
    { named
      key := holds_of_mapM Wire.key_eq_ok_iff.1 key
      direction := holds_of_mapM Wire.direction_eq_ok_iff.1 direction
      length := .inl (holds_of_mapM Wire.length_eq_ok_iff.1 length) }
  obtain ⟨found', again⟩ : (objectOf? keyTwice).isSome = true ∧
      1 < (valuesOf "key" ((objectOf? keyTwice).getD [])).length := by
    decide +kernel
  have twice := isObject_of_isSome found'
  obtain ⟨-, signal, -, event⟩ := told_or_refused twice
  exact ⟨among, ((told_or_refused among).1 _).2 told, twice, signal.2 (.key (.twice again)),
    event.2 (.key (.twice again))⟩

end Wire

end ScaleWatch
