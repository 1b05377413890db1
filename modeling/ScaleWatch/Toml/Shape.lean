import ScaleWatch.Fault
import ScaleWatch.Toml.Value

/-!
# Shapes of TOML values

A `Shape` says what a value stands for. A record is a table that may hold names it does not know,
or else an array of its fields in order, in which what is left over counts for nothing.
-/

namespace ScaleWatch.Toml

inductive Refusal where
  /-- A value of another kind than the wanted one, or one that is missing. -/
  | misshapen
  /-- A text of the right kind that cannot be read. -/
  | unreadable (fault : Fault)
  deriving DecidableEq

abbrev Shape (α : Type) := Value → Except Refusal α

/-- The entries of a table. A date counts as a table in which nothing is known. -/
def Value.entries? : Value → Option Table
  | .table _ entries => some entries
  | .dateTime => some []
  | _ => none

/-- The items of an array. -/
def Value.items? : Value → Option (List Value)
  | .array items => some items
  | .tables items => some (items.map (.table .header))
  | _ => none

/-- An array or a table without anything in it. -/
def Value.isVoid : Value → Bool
  | .array items => items.isEmpty
  | .table _ entries => entries.isEmpty
  | _ => false

namespace Shape

/-- A natural number up to a limit. -/
def natural (limit : Nat) : Shape Nat
  | .integer n => if 0 ≤ n ∧ n ≤ limit then .ok n.toNat else .error .misshapen
  | _ => .error .misshapen

def text : Shape (List Char)
  | .string t => .ok t
  | _ => .error .misshapen

/-- A text that `f` reads. -/
def parsed (f : String → Except Fault α) : Shape α := fun v => do
  match f (String.ofList (← text v)) with
  | .ok a => .ok a
  | .error fault => .error (.unreadable fault)

def list (shape : Shape α) : Shape (List α) := fun v =>
  match v.items? with
  | some items => items.mapM shape
  | none => .error .misshapen

/-- A word: a text that `f` reads, or a table whose one entry has that name and is void. -/
def word (f : List Char → Option α) : Shape α
  | .string t => (f t).elim (.error .misshapen) .ok
  | .table _ [(name, v)] => if v.isVoid then (f name).elim (.error .misshapen) .ok
    else .error .misshapen
  | _ => .error .misshapen

/-! ### Structs -/

/-- A field of a record that is being filled in. -/
structure Field (σ : Type) where
  name : String
  set : Value → σ → Except Refusal σ
  /-- Whether an array of the fields may end before it. -/
  isOptional : Bool

/-- Fill in a record from the entries of a table, in their order. -/
def fillFromEntries (fields : List (Field σ)) : Table → σ → Except Refusal σ
  | [], s => .ok s
  | (name, v) :: rest, s =>
    match fields.find? (·.name.toList = name) with
    | some field => do fillFromEntries fields rest (← field.set v s)
    | none => fillFromEntries fields rest s

/-- Fill in a record from the items of an array. -/
def fillFromItems : List (Field σ) → List Value → σ → Except Refusal σ
  | [], _, s => .ok s
  | field :: fields, [], s =>
    if field.isOptional then fillFromItems fields [] s else .error .misshapen
  | field :: fields, v :: rest, s => do fillFromItems fields rest (← field.set v s)

/-- A record that is filled in from `start`. -/
def record (fields : List (Field σ)) (start : σ) : Shape σ := fun v =>
  match v.entries?, v.items? with
  | some entries, _ => fillFromEntries fields entries start
  | none, some items => fillFromItems fields items start
  | none, none => .error .misshapen

end Shape

end ScaleWatch.Toml
