import ScaleWatch.Json.Outline

/-!
# Shapes of JSON texts

A `Shape` says which value, if any, an outline stands for. It refuses a text either because it is
not JSON (`malformed`) or because it is JSON of another shape (`misshapen`), whichever is met
first. A record is an object that has each of its fields once, beside any members it does not
know, or else an array of its fields in order.
-/

namespace ScaleWatch.Json

inductive Refusal where
  | malformed
  | misshapen
  deriving DecidableEq

abbrev Shape (α : Type) := Outline → Except Refusal α

namespace Shape

/-- Why a value that is not of the wanted kind is refused. A container is refused at its opening
bracket, whatever is inside. -/
def wrongKind : Outline → Refusal
  | .broken | .string none => .malformed
  | .number l => if l.finite then .misshapen else .malformed
  | _ => .misshapen

/-- A natural number up to a limit. -/
def natural (limit : Nat) : Shape Nat
  | .number ⟨some n, finite⟩ =>
    if n ≤ limit then .ok n else .error (wrongKind (.number ⟨some n, finite⟩))
  | o => .error (wrongKind o)

def text : Shape (List Char)
  | .string (some t) => .ok t
  | o => .error (wrongKind o)

/-- A text that `f` reads. -/
def parsed (f : List Char → Option α) : Shape α := fun o => do
  match f (← text o) with
  | some a => .ok a
  | none => .error .misshapen

/-- A value that may be null instead. -/
def optional (shape : Shape α) : Shape (Option α)
  | .null => .ok none
  | o => (shape o).map some

def list (shape : Shape α) : Shape (List α)
  | .array items closed => do
    let values ← items.mapM shape
    if closed then .ok values else .error .malformed
  | o => .error (wrongKind o)

/-- A word: a text that `f` reads, or an object whose one member has that name and is null. -/
def word (f : List Char → Option α) : Shape α
  | .string t => parsed f (.string t)
  | .object ((some name, v) :: more) closed =>
    match f name, v with
    | none, _ => .error .misshapen
    | some a, .null => if more.isEmpty && closed then .ok a else .error .malformed
    | some _, v => .error (wrongKind v)
  | _ => .error .malformed

/-! ### Structs -/

/-- A field of a record that is being filled in. -/
structure Field (σ : Type) where
  name : String
  /-- Whether the field has been met. -/
  isSet : σ → Bool
  set : Outline → σ → Except Refusal σ
  /-- Whether an array of the fields may end before it. -/
  isOptional : Bool

/-- Fill in a record from the members of an object. -/
def fillFromMembers (fields : List (Field σ)) :
    List (Option (List Char) × Outline) → σ → Except Refusal σ
  | [], s => .ok s
  | (none, _) :: _, _ => .error .malformed
  | (some name, v) :: rest, s =>
    match fields.find? (·.name.toList = name) with
    | some field => do
      if field.isSet s then .error .misshapen
      fillFromMembers fields rest (← field.set v s)
    | none => if v.intact then fillFromMembers fields rest s else .error .malformed

/-- Fill in a record from the items of an array, and give back the items left over. -/
def fillFromItems (closed : Bool) :
    List (Field σ) → List Outline → σ → Except Refusal (σ × List Outline)
  | [], items, s => .ok (s, items)
  | field :: fields, [], s =>
    if closed then
      if field.isOptional then fillFromItems closed fields [] s else .error .misshapen
    else .error .malformed
  | field :: fields, v :: rest, s => do
    fillFromItems closed fields rest (← field.set v s)

/-- A record that is filled in from `start`, and complete when `finish` gives a value. -/
def record (fields : List (Field σ)) (start : σ) (finish : σ → Option α) : Shape α
  | .object members closed => do
    let s ← fillFromMembers fields members start
    if closed then (finish s).elim (.error .misshapen) .ok else .error .malformed
  | .array items closed => do
    let (s, rest) ← fillFromItems closed fields items start
    if rest.isEmpty && closed then (finish s).elim (.error .misshapen) .ok
    else .error .malformed
  | o => .error (wrongKind o)

/-- Read a text that holds one value of the shape and nothing else. -/
def decode (shape : Shape α) (t : List Char) : Except Refusal α := do
  let (o, rest) := Outline.read t
  let a ← shape o
  match rest.map Outline.skipSpace with
  | some [] => .ok a
  | _ => .error .malformed

end Shape

end ScaleWatch.Json
