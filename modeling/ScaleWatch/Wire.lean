import ScaleWatch.Json
import ScaleWatch.Json.Shape
import ScaleWatch.Key.Reading
import ScaleWatch.Monitor

/-!
# Records on the wire

Events come in and signals go out as JSON objects; bounds, slots, key states and metrics have
their JSON forms too. Reading a record is tolerant in the way of `Json.Shape`; writing it gives
one text per record, its members in a fixed order and an absent buffer length left out.
-/

namespace ScaleWatch

/-! ### Writing -/

def Key.toJson (k : Key) : Json :=
  .string k.chars

def Direction.toJson (d : Direction) : Json :=
  .ofText d.token

def Signal.toJson (s : Signal) : Json :=
  .object (("key", s.key.toJson) :: ("direction", s.direction.toJson) ::
    (s.bufferLength.map fun n => ("buffer_length", .number n.toNat)).toList)

def Event.toJson (e : Event) : Json :=
  .object [("key", e.key.toJson), ("state", .number e.state.toNat)]

def Bounds.toJson (b : Bounds) : Json :=
  .object [("lower_limit", .number b.lower.toNat), ("upper_limit", .number b.upper.toNat),
    ("buffer_length", .number b.bufferLength.toNat)]

/-- The slots as they are, and the bounds they make. -/
def Bounds.Slots.toJson (s : Bounds.Slots) : Json :=
  .object [("slots", .array (s.toList.map (.ofOption fun n => .number n.toNat))),
    ("active", .ofOption Bounds.toJson s.active?)]

def Stats.toJson (s : Stats) : Json :=
  .object [("key", s.1.toJson), ("count", .number s.2.count.toNat),
    ("hysteresis", .number s.2.run.toNat), ("gated", .bool s.2.gated)]

def Metrics.toJson (m : Metrics) : Json :=
  .object [("events_processed", .number m.eventsProcessed.toNat),
    ("events_ignored", .number m.eventsIgnored.toNat),
    ("events_unwatched", .number m.eventsUnwatched.toNat),
    ("events_unconfigured", .number m.eventsUnconfigured.toNat),
    ("signals_emitted", .number m.signalsEmitted.toNat),
    ("signals_dropped", .number m.signalsDropped.toNat),
    ("registrations_rejected", .number m.registrationsRejected.toNat)]

/-! ### Reading -/

namespace Wire

open Json Json.Shape

def key : Shape Key :=
  parsed Key.ofChars?

def word32 : Shape UInt32 := fun o =>
  (natural (UInt32.size - 1) o).map .ofNat

def word8 : Shape UInt8 := fun o =>
  (natural (UInt8.size - 1) o).map .ofNat

/-- A field that is filled in with what `shape` reads. -/
def field (name : String) (shape : Shape α) (get : σ → Option α) (put : α → σ → σ) :
    Shape.Field σ where
  name := name
  isSet s := (get s).isSome
  set o s := (shape o).map (put · s)
  isOptional := false

/-- A signal that is being read; a buffer length of null is there and absent at once. -/
structure SignalParts where
  key : Option Key
  direction : Option Direction
  bufferLength : Option (Option UInt32)

def signal : Shape Signal :=
  record
    [field "key" key SignalParts.key fun k s => { s with key := some k },
      field "direction" (word Direction.ofToken?) SignalParts.direction
        fun d s => { s with direction := some d },
      { field "buffer_length" (optional word32) SignalParts.bufferLength
          fun n s => { s with bufferLength := some n } with isOptional := true }]
    ⟨none, none, none⟩
    fun s => do return ⟨← s.key, ← s.direction, s.bufferLength.join⟩

structure EventParts where
  key : Option Key
  state : Option UInt8

def event : Shape Event :=
  record
    [field "key" key EventParts.key fun k s => { s with key := some k },
      field "state" word8 EventParts.state fun n s => { s with state := some n }]
    ⟨none, none⟩
    fun s => do return ⟨← s.key, ← s.state⟩

def bounds : Shape Bounds :=
  record
    [field "lower_limit" word32 Bounds.Parts.lower fun n s => { s with lower := some n },
      field "upper_limit" word32 Bounds.Parts.upper fun n s => { s with upper := some n },
      field "buffer_length" word32 Bounds.Parts.bufferLength
        fun n s => { s with bufferLength := some n }]
    .empty
    Bounds.Parts.bounds?

/-- The value for one threshold slot. -/
def slotValue : Shape UInt32 :=
  record [field "value" word32 id fun n _ => some n] none id

end Wire

def Signal.ofJsonText (t : List Char) : Except Json.Refusal Signal :=
  Wire.signal.decode t

def Event.ofJsonText (t : List Char) : Except Json.Refusal Event :=
  Wire.event.decode t

end ScaleWatch
