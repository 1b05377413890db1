/-!
# TOML values and tables

A document is a table of named values. Tables come about in several ways, by a header, on the way
to a header, by a dotted key or in braces, and the way decides who may add to one later. `Form`
records it. Tables grow only by `Table.define?`, `Table.openTable?` and `Table.openNext?`, so the
rules on defining a name twice are all here. Names keep the order in which they were defined.
-/

namespace ScaleWatch.Toml

/-- How a table came about. -/
inductive Form where
  /-- By a header of its own, or as the whole document. -/
  | header
  /-- On the way to the header of a table inside it. -/
  | implied
  /-- By a dotted key. -/
  | dotted
  /-- In braces, where it is complete. -/
  | braces
  deriving DecidableEq

/-- Whether a dotted key may pass through a table. -/
def Form.isOpen : Form → Bool
  | implied | dotted => true
  | header | braces => false

inductive Value where
  | string (t : List Char)
  | integer (n : Int)
  | boolean (b : Bool)
  /-- A number with a fraction or an exponent; nothing asks for its value. -/
  | float
  /-- A date, a time or both; nothing asks for it. -/
  | dateTime
  | array (items : List Value)
  | table (form : Form) (entries : List (List Char × Value))
  /-- The tables of a header in double brackets. -/
  | tables (items : List (List (List Char × Value)))

abbrev Table := List (List Char × Value)

/-- A key: the names of the tables on the way, and the name that is meant in the last of them. -/
structure Path where
  parents : List (List Char)
  name : List Char
  deriving DecidableEq

def Path.names (p : Path) : List (List Char) :=
  p.parents ++ [p.name]

namespace Table

/-- Give a defined name another value, at the same place. -/
def replace (name : List Char) (v : Value) (table : Table) : Table :=
  table.map fun e => if e.1 = name then (name, v) else e

def erase (name : List Char) (table : Table) : Table :=
  table.filter (·.1 ≠ name)

/-- Change the table at a path, and make the tables on the way to it that are missing. A path of
a dotted key passes only through tables that are open to such keys; tables in braces are closed to
all, and of the tables of a double header the last one is meant. -/
def updateAt? (byDottedKey : Bool) (f : Form → Table → Option Table) :
    List (List Char) → Form → Table → Option Table
  | [], form, table => f form table
  | name :: path, _, table =>
    match table.lookup name with
    | none => do
      let form := if byDottedKey then Form.dotted else .implied
      let inner ← updateAt? byDottedKey f path form []
      return table ++ [(name, .table form inner)]
    | some (.table form inner) => do
      guard (form ≠ .braces ∧ (byDottedKey → form.isOpen))
      let inner ← updateAt? byDottedKey f path form inner
      return table.replace name (.table form inner)
    | some (.tables items) => do
      let last ← updateAt? byDottedKey f path .header (← items.getLast?)
      return table.replace name (.tables (items.dropLast ++ [last]))
    | some _ => none

/-- Define a key that is not defined yet. The table that holds its name must be the one that is
being written if the key has no dots, and one made by dotted keys otherwise. -/
def define? (p : Path) (v : Value) (table : Table) : Option Table :=
  updateAt? true
    (fun form inner =>
      if ((form = .dotted) ↔ p.parents ≠ []) ∧ (inner.lookup p.name).isNone then
        some (inner ++ [(p.name, v)])
      else none)
    p.parents .header table

/-- Open the table of a header. It may be there already if only tables inside it had headers; then
it counts as defined here, behind what came between. -/
def openTable? (p : Path) (table : Table) : Option Table :=
  updateAt? false
    (fun _ parent =>
      match parent.lookup p.name with
      | none => some (parent ++ [(p.name, .table .header [])])
      | some (.table .implied inner) =>
        some (parent.erase p.name ++ [(p.name, .table .header inner)])
      | some _ => none)
    p.parents .header table

/-- Open the next table of a double header. -/
def openNext? (p : Path) (table : Table) : Option Table :=
  updateAt? false
    (fun _ parent =>
      match parent.lookup p.name with
      | none => some (parent ++ [(p.name, .tables [[]])])
      | some (.tables items) => some (parent.replace p.name (.tables (items ++ [[]])))
      | some _ => none)
    p.parents .header table

end Table

end ScaleWatch.Toml
