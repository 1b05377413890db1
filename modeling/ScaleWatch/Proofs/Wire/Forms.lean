import ScaleWatch.Proofs.Json.Acceptance
import ScaleWatch.Wire

/-!
# The forms of signals and events

A signal or an event is read from an object, which has each of its fields in one member wherever
that stands, or from an array of its fields in order.  The forms of a record are the outlines from
which it is read, and there are no others.
-/

namespace ScaleWatch

open Json

/-! ### Fields -/

/-- The texts of a key. -/
def Key.Form (k : Key) (o : Outline) : Prop :=
  ∃ t, ofChars? t = some k ∧ o = .string (some t)

/-- The word for a direction, or an object with that word for its only name. -/
def Direction.Form (d : Direction) (o : Outline) : Prop :=
  o = .string (some d.token.toList) ∨ o = .object [(some d.token.toList, .null)] true

namespace Wire

def NumberForm (n : Nat) (o : Outline) : Prop :=
  ∃ finite, o = .number ⟨some n, finite⟩

/-- A number, or null in place of one. -/
def LengthForm (n : Option UInt32) (o : Outline) : Prop :=
  o = .null ∧ none = n ∨ ∃ m : UInt32, NumberForm m.toNat o ∧ some m = n

section Fields

variable {o : Outline}

theorem key_eq_ok_iff {k : Key} : key o = .ok k ↔ k.Form o :=
  Shape.parsed_eq_ok_iff

theorem ofToken?_eq_some_iff {t : List Char} {d : Direction} :
    Direction.ofToken? t = some d ↔ t = d.token.toList := by
  constructor
  · intro h
    unfold Direction.ofToken? at h
    split at h
    · next down =>
      cases h
      exact down
    split at h
    · next up =>
      cases h
      exact up
    · cases h
  · rintro rfl
    cases d <;> rfl

theorem direction_eq_ok_iff {d : Direction} :
    Shape.word Direction.ofToken? o = .ok d ↔ d.Form o := by
  simp only [Shape.word_eq_ok_iff, ofToken?_eq_some_iff, exists_eq_left, Direction.Form]

theorem word8_eq_ok_iff {n : UInt8} : word8 o = .ok n ↔ NumberForm n.toNat o := by
  simp only [word8, map_eq_ok_iff, Shape.natural_eq_ok_iff]
  constructor
  · rintro ⟨m, ⟨inside, form⟩, rfl⟩
    rwa [UInt8.toNat_ofNat', Nat.mod_eq_of_lt (Nat.lt_of_le_pred (by decide) inside)]
  · intro form
    exact ⟨n.toNat, ⟨Nat.le_sub_one_of_lt n.toNat_lt, form⟩, UInt8.ofNat_toNat⟩

theorem word32_eq_ok_iff {n : UInt32} : word32 o = .ok n ↔ NumberForm n.toNat o := by
  simp only [word32, map_eq_ok_iff, Shape.natural_eq_ok_iff]
  constructor
  · rintro ⟨m, ⟨inside, form⟩, rfl⟩
    rwa [UInt32.toNat_ofNat', Nat.mod_eq_of_lt (Nat.lt_of_le_pred (by decide) inside)]
  · intro form
    exact ⟨n.toNat, ⟨Nat.le_sub_one_of_lt n.toNat_lt, form⟩, UInt32.ofNat_toNat⟩

theorem length_eq_ok_iff {n : Option UInt32} :
    Shape.optional word32 o = .ok n ↔ LengthForm n o := by
  rw [Shape.optional_eq_ok_iff fun _ h => by cases h]
  simp only [word32_eq_ok_iff, LengthForm]

end Fields

/-! ### Records -/

end Wire

/-- An object with each field of a signal in one member, or an array of the fields in order.  The
buffer length may be left out. -/
inductive Signal.Form (s : Signal) : Outline → Prop
  | object {members k d}
    (legible : ∀ m ∈ members, Shape.Legible ["key", "direction", "buffer_length"] m)
    (key : Shape.valuesOf "key" members = [k]) (keyForm : s.key.Form k)
    (direction : Shape.valuesOf "direction" members = [d]) (directionForm : s.direction.Form d)
    (length : Shape.valuesOf "buffer_length" members = [] ∧ s.bufferLength = none ∨
      ∃ n, Shape.valuesOf "buffer_length" members = [n] ∧ Wire.LengthForm s.bufferLength n) :
    Form s (.object members true)
  | pair {k d} (keyForm : s.key.Form k) (directionForm : s.direction.Form d)
    (length : s.bufferLength = none) : Form s (.array [k, d] true)
  | triple {k d n} (keyForm : s.key.Form k) (directionForm : s.direction.Form d)
    (length : Wire.LengthForm s.bufferLength n) : Form s (.array [k, d, n] true)

/-- An object with each field of an event in one member, or an array of the fields in order. -/
inductive Event.Form (e : Event) : Outline → Prop
  | object {members k n}
    (legible : ∀ m ∈ members, Shape.Legible ["key", "state"] m)
    (key : Shape.valuesOf "key" members = [k]) (keyForm : e.key.Form k)
    (state : Shape.valuesOf "state" members = [n])
    (stateForm : Wire.NumberForm e.state.toNat n) : Form e (.object members true)
  | pair {k n} (keyForm : e.key.Form k) (stateForm : Wire.NumberForm e.state.toNat n) :
    Form e (.array [k, n] true)

namespace Wire

open Shape

/-! ### Parts of a record -/

/-- What the values of a field come to: there is none, or there is one and it is read. -/
inductive Given {α : Type} (shape : Shape α) (values : List Outline) : Option α → Prop
  | absent (nothing : values = []) : Given shape values none
  | once {v a} (one : values = [v]) (read : shape v = .ok a) : Given shape values (some a)

section Lens

variable {α β σ : Type} {name name' : String} {shape : Shape α} {shape' : Shape β}
  {get : σ → Option α} {get' : σ → Option β} {put : α → σ → σ} {put' : β → σ → σ}
  {optional optional' : Bool}

/-- Fields are apart that lie in different parts of a record. -/
theorem apart_field (names : name ≠ name') (left : ∀ b s, get (put' b s) = get s)
    (right : ∀ a s, get' (put a s) = get' s)
    (comm : ∀ a b s, put' b (put a s) = put a (put' b s)) :
    Shape.Field.Apart { field name shape get put with isOptional := optional }
      { field name' shape' get' put' with isOptional := optional' } where
  name := names
  isSet_left h := by
    obtain ⟨b, -, rfl⟩ := map_eq_ok_iff.1 h
    exact congrArg Option.isSome (left b _)
  isSet_right h := by
    obtain ⟨a, -, rfl⟩ := map_eq_ok_iff.1 h
    exact congrArg Option.isSome (right a _)
  comm {v w s s'} := by
    simp only [bind_eq_ok_iff, field, map_eq_ok_iff]
    constructor
    · rintro ⟨_, ⟨a, read, rfl⟩, b, read', rfl⟩
      exact ⟨_, ⟨b, read', rfl⟩, a, read, (comm a b s).symm⟩
    · rintro ⟨_, ⟨b, read', rfl⟩, a, read, rfl⟩
      exact ⟨_, ⟨a, read, rfl⟩, b, read', comm a b s⟩

theorem independent_nil : Independent ([] : List (Shape.Field σ)) :=
  ⟨.nil, by simp⟩

theorem independent_cons {fields : List (Shape.Field σ)} (back : ∀ a s, get (put a s) = some a)
    (independent : Independent fields)
    (apart : ∀ f ∈ fields,
      Shape.Field.Apart { field name shape get put with isOptional := optional } f) :
    Independent ({ field name shape get put with isOptional := optional } :: fields) where
  apart := independent.apart.cons apart
  isSet_of_set := by
    refine List.forall_mem_cons.2 ⟨fun {v s s'} h => ?_, independent.isSet_of_set⟩
    obtain ⟨a, -, rfl⟩ := map_eq_ok_iff.1 h
    exact congrArg Option.isSome (back a s)

theorem set_field {a : α} {v : Outline} {s : σ} (read : shape v = .ok a) :
    Shape.Field.set { field name shape get put with isOptional := optional } v s = .ok (put a s) :=
  map_eq_ok_iff.2 ⟨a, read, rfl⟩

theorem fills_field_iff {members : List (Option (List Char) × Outline)}
    {fields : List (Shape.Field σ)} {s s' : σ} (fresh : get s = none) :
    Fills members ({ field name shape get put with isOptional := optional } :: fields) s s' ↔
      ∃ a, Given shape (valuesOf name members) a ∧
        Fills members fields (a.elim s (put · s)) s' := by
  constructor
  · rintro (_ | ⟨none, later⟩ | ⟨one, -, set, later⟩)
    · exact ⟨_, .absent none, later⟩
    · obtain ⟨a, read, rfl⟩ := map_eq_ok_iff.1 set
      exact ⟨_, .once one read, later⟩
  · rintro ⟨_, none | ⟨one, read⟩, later⟩
    · exact .absent none later
    · exact .once one (congrArg Option.isSome fresh) (set_field read) later

end Lens

/-! ### Signals -/

theorem signal_object_eq_ok_iff {s : Signal} {members closed} :
    signal (.object members closed) = .ok s ↔ s.Form (.object members closed) := by
  refine (record_object_eq_ok_iff ?_).trans ⟨?_, ?_⟩
  · refine independent_cons (fun _ _ => by rfl) (independent_cons (fun _ _ => by rfl)
      (independent_cons (fun _ _ => by rfl) independent_nil ?_) ?_) ?_
    · simp
    · rw [List.forall_mem_singleton]
      exact apart_field (by decide) (fun _ _ => rfl) (fun _ _ => rfl) (fun _ _ _ => rfl)
    · rw [List.forall_mem_cons, List.forall_mem_singleton]
      exact ⟨apart_field (by decide) (fun _ _ => rfl) (fun _ _ => rfl) (fun _ _ _ => rfl),
        apart_field (by decide) (fun _ _ => rfl) (fun _ _ => rfl) (fun _ _ _ => rfl)⟩
  · rintro ⟨rfl, legible, s', fills, finished⟩
    obtain ⟨k, key, fills⟩ := (fills_field_iff rfl).1 fills
    obtain ⟨d, direction, fills⟩ := (fills_field_iff (by cases k <;> rfl)).1 fills
    obtain ⟨n, length, fills⟩ := (fills_field_iff (by cases k <;> cases d <;> rfl)).1 fills
    cases fills
    -- Without a key or a direction there is nothing in the end.
    cases key with
    | absent => cases d <;> cases n <;> cases finished
    | once key keyRead =>
      cases direction with
      | absent => cases n <;> cases finished
      | once direction directionRead =>
        cases length with
        | absent nothing =>
          cases finished
          exact .object legible key (key_eq_ok_iff.1 keyRead) direction
            (direction_eq_ok_iff.1 directionRead) (.inl ⟨nothing, rfl⟩)
        | once length lengthRead =>
          cases finished
          exact .object legible key (key_eq_ok_iff.1 keyRead) direction
            (direction_eq_ok_iff.1 directionRead) (.inr ⟨_, length, length_eq_ok_iff.1 lengthRead⟩)
  · rintro ⟨legible, key, keyForm, direction, directionForm, length⟩
    obtain ⟨k, d, n⟩ := s
    have keyGiven := Given.once key (key_eq_ok_iff.2 keyForm)
    have directionGiven := Given.once direction (direction_eq_ok_iff.2 directionForm)
    refine ⟨rfl, legible, ?_⟩
    rcases length with ⟨nothing, rfl⟩ | ⟨v, length, lengthForm⟩
    · refine ⟨⟨some k, some d, none⟩, ?_, rfl⟩
      exact (fills_field_iff rfl).2 ⟨_, keyGiven, (fills_field_iff rfl).2 ⟨_, directionGiven,
        (fills_field_iff rfl).2 ⟨_, .absent nothing, .done⟩⟩⟩
    · refine ⟨⟨some k, some d, some n⟩, ?_, rfl⟩
      exact (fills_field_iff rfl).2 ⟨_, keyGiven, (fills_field_iff rfl).2 ⟨_, directionGiven,
        (fills_field_iff rfl).2 ⟨_, .once length (length_eq_ok_iff.2 lengthForm), .done⟩⟩⟩

theorem signal_array_eq_ok_iff {s : Signal} {items closed} :
    signal (.array items closed) = .ok s ↔ s.Form (.array items closed) := by
  refine record_array_eq_ok_iff.trans ⟨?_, ?_⟩
  · rintro ⟨rfl, s', fills, finished⟩
    obtain _ | ⟨⟨⟩, -⟩ | ⟨keySet, fills⟩ := fills
    obtain _ | ⟨⟨⟩, -⟩ | ⟨directionSet, fills⟩ := fills
    obtain ⟨k, keyRead, rfl⟩ := map_eq_ok_iff.1 keySet
    obtain ⟨d, directionRead, rfl⟩ := map_eq_ok_iff.1 directionSet
    have keyForm := key_eq_ok_iff.1 keyRead
    have directionForm := direction_eq_ok_iff.1 directionRead
    obtain _ | ⟨-, fills⟩ | ⟨lengthSet, fills⟩ := fills
    · cases fills
      cases finished
      exact .pair keyForm directionForm rfl
    · obtain ⟨n, lengthRead, rfl⟩ := map_eq_ok_iff.1 lengthSet
      cases fills
      cases finished
      exact .triple keyForm directionForm (length_eq_ok_iff.1 lengthRead)
  · intro form
    obtain ⟨k, d, n⟩ := s
    cases form with
    | pair keyForm directionForm length =>
      cases length
      refine ⟨rfl, ⟨some k, some d, none⟩, ?_, rfl⟩
      exact .next (set_field (key_eq_ok_iff.2 keyForm))
        (.next (set_field (direction_eq_ok_iff.2 directionForm)) (.ended rfl .done))
    | triple keyForm directionForm lengthForm =>
      refine ⟨rfl, ⟨some k, some d, some n⟩, ?_, rfl⟩
      exact .next (set_field (key_eq_ok_iff.2 keyForm))
        (.next (set_field (direction_eq_ok_iff.2 directionForm))
          (.next (set_field (length_eq_ok_iff.2 lengthForm)) .done))

/-- A signal is read from its forms and from nothing else. -/
theorem signal_eq_ok_iff {s : Signal} {o : Outline} : signal o = .ok s ↔ s.Form o := by
  cases o with
  | object members closed => exact signal_object_eq_ok_iff
  | array items closed => exact signal_array_eq_ok_iff
  | _ =>
    constructor
    · rintro ⟨⟩
    · rintro ⟨⟩

/-! ### Events -/

theorem event_object_eq_ok_iff {e : Event} {members closed} :
    event (.object members closed) = .ok e ↔ e.Form (.object members closed) := by
  refine (record_object_eq_ok_iff ?_).trans ⟨?_, ?_⟩
  · refine independent_cons (fun _ _ => by rfl) (independent_cons (fun _ _ => by rfl)
      independent_nil ?_) ?_
    · simp
    · rw [List.forall_mem_singleton]
      exact apart_field (by decide) (fun _ _ => rfl) (fun _ _ => rfl) (fun _ _ _ => rfl)
  · rintro ⟨rfl, legible, s', fills, finished⟩
    obtain ⟨k, key, fills⟩ := (fills_field_iff rfl).1 fills
    obtain ⟨n, state, fills⟩ := (fills_field_iff (by cases k <;> rfl)).1 fills
    cases fills
    cases key with
    | absent => cases n <;> cases finished
    | once key keyRead =>
      cases state with
      | absent => cases finished
      | once state stateRead =>
        cases finished
        exact .object legible key (key_eq_ok_iff.1 keyRead) state (word8_eq_ok_iff.1 stateRead)
  · rintro ⟨legible, key, keyForm, state, stateForm⟩
    obtain ⟨k, n⟩ := e
    refine ⟨rfl, legible, ⟨some k, some n⟩, ?_, rfl⟩
    exact (fills_field_iff rfl).2 ⟨_, .once key (key_eq_ok_iff.2 keyForm),
      (fills_field_iff rfl).2 ⟨_, .once state (word8_eq_ok_iff.2 stateForm), .done⟩⟩

theorem event_array_eq_ok_iff {e : Event} {items closed} :
    event (.array items closed) = .ok e ↔ e.Form (.array items closed) := by
  refine record_array_eq_ok_iff.trans ⟨?_, ?_⟩
  · rintro ⟨rfl, s', fills, finished⟩
    obtain _ | ⟨⟨⟩, -⟩ | ⟨keySet, fills⟩ := fills
    obtain _ | ⟨⟨⟩, -⟩ | ⟨stateSet, fills⟩ := fills
    obtain ⟨k, keyRead, rfl⟩ := map_eq_ok_iff.1 keySet
    obtain ⟨n, stateRead, rfl⟩ := map_eq_ok_iff.1 stateSet
    cases fills
    cases finished
    exact .pair (key_eq_ok_iff.1 keyRead) (word8_eq_ok_iff.1 stateRead)
  · rintro (_ | ⟨keyForm, stateForm⟩)
    obtain ⟨k, n⟩ := e
    refine ⟨rfl, ⟨some k, some n⟩, ?_, rfl⟩
    exact .next (set_field (key_eq_ok_iff.2 keyForm))
      (.next (set_field (word8_eq_ok_iff.2 stateForm)) .done)

/-- An event is read from its forms and from nothing else. -/
theorem event_eq_ok_iff {e : Event} {o : Outline} : event o = .ok e ↔ e.Form o := by
  cases o with
  | object members closed => exact event_object_eq_ok_iff
  | array items closed => exact event_array_eq_ok_iff
  | _ =>
    constructor
    · rintro ⟨⟩
    · rintro ⟨⟩

end Wire

end ScaleWatch
