import ScaleWatch.Config
import ScaleWatch.FileTree
import ScaleWatch.Key.Reading
import ScaleWatch.Text.Utf8
import ScaleWatch.Toml.Document
import ScaleWatch.Toml.Shape

/-!
# Reading configurations

A configuration is a TOML document with the tables `thresholds`, `monitor`, `consumer` and `watch`.
What it leaves out has its default, and names it does not know are passed over. A configuration
that is read is also checked, so that one which is accepted can be started with.
-/

namespace ScaleWatch

def GatePolicy.name : GatePolicy → String
  | latched => "latched"
  | ungated => "ungated"

def GatePolicy.ofName? (t : List Char) : Option GatePolicy :=
  if t = "latched".toList then some .latched
  else if t = "ungated".toList then some .ungated
  else none

namespace Config

/-! ### Tables -/

namespace Layout

open Toml Toml.Shape

/-- A field that holds what `shape` reads. -/
def field (name : String) (isOptional : Bool) (shape : Shape α) (put : α → σ → σ) :
    Shape.Field σ where
  name := name
  set v s := (shape v).map (put · s)
  isOptional := isOptional

def word32 : Shape UInt32 := fun v =>
  (natural (UInt32.size - 1) v).map .ofNat

def size : Shape UInt64 := fun v =>
  (natural (UInt64.size - 1) v).map .ofNat

def thresholdFields : List (Shape.Field Bounds.Parts) :=
  [field "lower_limit" false word32 fun n p => { p with lower := some n },
    field "upper_limit" false word32 fun n p => { p with upper := some n },
    field "buffer_length" false word32 fun n p => { p with bufferLength := some n }]

def bounds : Shape Bounds := fun v => do
  let p ← record thresholdFields .empty v
  p.bounds?.elim (.error .misshapen) .ok

def monitorFields : List (Shape.Field Config) :=
  [field "gate" true (word GatePolicy.ofName?) fun policy c => { c with policy },
    field "max_keys" true size fun maxKeys c => { c with maxKeys },
    field "signal_slots" true size fun signalSlots c => { c with signalSlots },
    field "slot_capacity" true size fun slotCapacity c => { c with slotCapacity }]

def consumerFields : List (Shape.Field Config) :=
  [field "rearm_after" false text fun t c => { c with rearmAfter? := some (.ofList t) }]

def watchFields : List (Shape.Field Config) :=
  [field "keys" true (list (parsed Key.parse)) fun keys c => { c with keys }]

/-- A field that is a record and sets several parts of a configuration. -/
def part (name : String) (fields : List (Shape.Field Config)) : Shape.Field Config where
  name := name
  set v c := record fields c v
  isOptional := true

def fields : List (Shape.Field Config) :=
  [field "thresholds" true bounds fun b c => { c with bounds? := some b },
    part "monitor" monitorFields,
    part "consumer" consumerFields,
    part "watch" watchFields]

end Layout

open Toml

/-- The configuration that a table describes, on a machine with so many processing units. -/
def ofTable (units : UInt64) (table : Table) : Except Refusal Config :=
  Shape.fillFromEntries Layout.fields table (default units)

/-! ### Documents and files -/

inductive LoadFault where
  | unavailable (fault : FileFault)
  /-- The file does not hold text. -/
  | notText
  /-- The text is no TOML document, or its values are not of the kinds they should be. -/
  | malformed
  /-- A text in the document cannot be read. -/
  | unreadable (fault : Fault)
  /-- The configuration is complete, but no daemon could be started with it. -/
  | refused (fault : Fault)
  deriving DecidableEq

def LoadFault.ofRefusal : Refusal → LoadFault
  | .misshapen => malformed
  | .unreadable fault => unreadable fault

def LoadFault.message : LoadFault → String
  | unavailable fault => fault.message
  | notText => "stream did not contain valid UTF-8"
  | malformed => "not a TOML document with the expected tables"
  | unreadable fault => fault.message
  | refused fault => fault.message

/-- The configuration that a document describes, if it can be started with. -/
def ofChars (units : UInt64) (t : List Char) : Except LoadFault Config :=
  match Toml.read? t with
  | none => .error .malformed
  | some table => do
    let c ← (ofTable units table).mapError .ofRefusal
    c.check.mapError .refused
    return c

def parse (units : UInt64) (text : String) : Except LoadFault Config :=
  ofChars units text.toList

/-- The configuration in a file, from what opening and reading the file gave. -/
def load (units : UInt64) : Except FileFault (List UInt8) → Except LoadFault Config
  | .error fault => .error (.unavailable fault)
  | .ok octets =>
    match Text.Utf8.decode? octets with
    | some t => ofChars units t
    | none => .error .notText

end Config

end ScaleWatch
