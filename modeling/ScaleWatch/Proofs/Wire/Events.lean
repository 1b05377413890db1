import ScaleWatch.Proofs.Json.RoundTrip
import ScaleWatch.Proofs.Outcome
import ScaleWatch.Wire

/-!
# Events that are written are read

The text of a key is read as that key, the text of an event as that event, and the text of an array
of events as these events in order.
-/

namespace ScaleWatch

open Text

/-! ### Keys -/

theorem Key.ofTrimmed?_chars (k : Key) : Key.ofTrimmed? k.chars = some k := by
  cases k with
  | netns id =>
    have read := Numeral.read?_digits (Nat.le_sub_one_of_lt id.toNat_lt)
    change (Numeral.read? (UInt32.size - 1) (Numeral.digits id.toNat)).map _ = _
    rw [read, Option.map_some, UInt32.ofNat_toNat]
  | port number =>
    have read := Numeral.read?_digits (Nat.le_sub_one_of_lt number.toNat_lt)
    change (Numeral.read? (UInt16.size - 1) (Numeral.digits number.toNat)).map _ = _
    rw [read, Option.map_some, UInt16.ofNat_toNat]

theorem Key.trim_chars (k : Key) : trim k.chars = k.chars := by
  cases k with
  | netns id => exact trim_append_digits "netns:".toList (by simp; decide) id.toNat
  | port number => exact trim_append_digits "port:".toList (by simp; decide) number.toNat

theorem Key.ofChars?_chars (k : Key) : Key.ofChars? k.chars = some k := by
  rw [ofChars?, trim_chars, ofTrimmed?_chars]

theorem Key.parse_chars (k : Key) : Key.parse (String.ofList k.chars) = .ok k := by
  rw [parse, String.toList_ofList, ofChars?_chars]

/-! ### Shapes -/

namespace Json.Shape

theorem parsed_of_read {α : Type} {f : List Char → Option α} {t : List Char} {a : α}
    (read : f t = some a) : parsed f (.string (some t)) = .ok a := by
  have said : text (.string (some t)) = .ok t := rfl
  rw [parsed, said, ok_bind, read]

/-- A member that names a field which has not been met fills it in. -/
theorem fillFromMembers_cons {σ : Type} {fields : List (Field σ)} {name : List Char} {v : Outline}
    {rest : List (Option (List Char) × Outline)} {s : σ} {field : Field σ} (s' : σ)
    (found : fields.find? (·.name.toList = name) = some field) (fresh : field.isSet s = false)
    (set : field.set v s = .ok s') :
    fillFromMembers fields ((some name, v) :: rest) s = fillFromMembers fields rest s' := by
  rw [fillFromMembers, found]
  simp only [fresh, Bool.false_eq_true, if_false, set]
  rfl

end Json.Shape

/-! ### Events -/

namespace Wire

open Json

theorem key_toJson (k : Key) : key k.toJson.outline = .ok k := by
  rw [Key.toJson, outline]
  exact Shape.parsed_of_read k.ofChars?_chars

theorem word8_number (n : UInt8) : word8 (Json.number n.toNat).outline = .ok n := by
  have inside : n.toNat ≤ UInt8.size - 1 := Nat.le_sub_one_of_lt n.toNat_lt
  simp only [outline, word8, Literal.ofNat, Shape.natural, inside, if_true, Except.map,
    UInt8.ofNat_toNat]

theorem event_toJson (e : Event) : event e.toJson.outline = .ok e := by
  have key_set := congrArg (Except.map fun k => EventParts.mk (some k) none) (key_toJson e.key)
  have state_set := congrArg (Except.map fun n => EventParts.mk (some e.key) (some n))
    (word8_number e.state)
  simp only [Event.toJson, outline, outlineMembers, event, Shape.record] at key_set state_set ⊢
  rw [Shape.fillFromMembers_cons ⟨some e.key, none⟩ rfl rfl key_set,
    Shape.fillFromMembers_cons ⟨some e.key, some e.state⟩ rfl rfl state_set]
  rfl

theorem events_toJson (events : List Event) :
    Shape.list event (Json.array (events.map Event.toJson)).outline = .ok events := by
  have read := mapM_of_read (f := outline ∘ Event.toJson) event_toJson events
  rw [outline, outlineItems_eq_map, List.map_map, Shape.list, read]
  rfl

end Wire

theorem Event.ofJsonText_chars (e : Event) : Event.ofJsonText e.toJson.chars = .ok e := by
  rw [ofJsonText, Json.decode_chars, Wire.event_toJson]

end ScaleWatch
