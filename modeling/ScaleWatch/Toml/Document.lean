import ScaleWatch.Toml.Statement

/-!
# TOML documents

The statements of a document build its table one after another: a header says where the definitions
behind it belong. A text is read as a whole or not at all.
-/

namespace ScaleWatch.Toml

/-- A document that is being built. -/
structure Draft where
  root : Table
  /-- The names of the header that holds what is defined now; none in front of all headers. -/
  place : List (List Char)

namespace Draft

def empty : Draft := ⟨[], []⟩

/-- What a statement adds, unless it defines something twice. -/
def add? (d : Draft) : Statement → Option Draft
  | .header p => (d.root.openTable? p).map fun root => ⟨root, p.names⟩
  | .doubleHeader p => (d.root.openNext? p).map fun root => ⟨root, p.names⟩
  | .definition p v =>
    (d.root.updateAt? false (fun _ table => table.define? p v) d.place .header).map fun root =>
      { d with root }

end Draft

/-- The table that statements build. -/
def Table.ofStatements? (statements : List Statement) : Option Table :=
  (statements.foldlM Draft.add? .empty).map Draft.root

/-- A text without the byte order mark that may stand in front of it. -/
def dropMark : List Char → List Char
  | '\ufeff' :: t => t
  | t => t

/-- The table that a text describes, if it is a TOML document. -/
def read? (t : List Char) : Option Table :=
  (readStatements (dropMark t).length (dropMark t)).bind Table.ofStatements?

end ScaleWatch.Toml
