import ScaleWatch.Toml.Scalar

/-!
# TOML statements

A document is a sequence of lines: headers, definitions, and lines that say nothing. This is the
syntax alone; what the statements build is the document's matter. Arrays and tables in braces nest
at most `maxDepth` deep, and a key has at most `maxDepth` names.
-/

namespace ScaleWatch.Toml

inductive Statement where
  | header (p : Path)
  /-- A header in double brackets. -/
  | doubleHeader (p : Path)
  | definition (p : Path) (v : Value)

def maxDepth : Nat := 79

/-! ### Keys -/

/-- A character of a name without quotes. -/
def isBare (c : Char) : Bool :=
  c.isAlphanum || c = '_' || c = '-'

def readName : List Char → Option (List Char × List Char)
  | '"' :: t => readBasic t
  | '\x27' :: t => readLiteral t
  | t => if t.takeWhile isBare = [] then none else some (t.takeWhile isBare, t.dropWhile isBare)

/-- A key of at most `limit` names, with the blanks around it. -/
def readPath : (limit : Nat) → List Char → Option (Path × List Char)
  | 0, _ => none
  | limit + 1, t => do
    let (name, t) ← readName (skipBlanks t)
    match skipBlanks t with
    | '.' :: t => do
      let (p, rest) ← readPath limit t
      return ({ p with parents := name :: p.parents }, rest)
    | rest => return (⟨[], name⟩, rest)

/-! ### Values -/

/-- What follows the blanks, line ends and comments in front of a text. A comment that is not ended
by a line end is left standing. -/
def skipLines (inComment : Bool) : List Char → List Char
  | [] => []
  | '\n' :: t => skipLines false t
  | '\r' :: '\n' :: t => skipLines false t
  | c :: t =>
    if inComment then if isPlain c then skipLines true t else c :: t
    else if isBlank c then skipLines false t
    else if c = '#' then skipLines true t
    else c :: t

/-- The items of an array, behind its opening bracket or a comma. -/
def readItems (read : List Char → Option (Value × List Char)) :
    (fuel : Nat) → List Char → Option (List Value × List Char)
  | 0, _ => none
  | fuel + 1, t =>
    match skipLines false t with
    | ']' :: rest => some ([], rest)
    | t => do
      let (v, t) ← read t
      match skipLines false t with
      | ',' :: t => do
        let (items, rest) ← readItems read fuel t
        return (v :: items, rest)
      | ']' :: rest => some ([v], rest)
      | _ => none

/-- A key with its value, and the blanks around both. -/
def readPair (read : List Char → Option (Value × List Char)) (t : List Char) :
    Option (Path × Value × List Char) := do
  let (p, t) ← readPath maxDepth t
  let (v, t) ← read (skipBlanks (← expect '=' t))
  return (p, v, skipBlanks t)

/-- The rest of a table in braces, behind the opening brace or a comma. -/
def readPairs (read : List Char → Option (Value × List Char)) :
    (fuel : Nat) → Table → List Char → Option (Table × List Char)
  | 0, _, _ => none
  | fuel + 1, table, t => do
    let (p, v, t) ← readPair read t
    let table ← table.define? p v
    match t with
    | ',' :: t => readPairs read fuel table t
    | '\x7d' :: rest => some (table, rest)
    | _ => none

/-- A table in braces, behind the opening one. -/
def readBraces (read : List Char → Option (Value × List Char)) (t : List Char) :
    Option (Table × List Char) :=
  match skipBlanks t with
  | '\x7d' :: rest => some ([], rest)
  | t => readPairs read t.length [] t

/-- A value in which arrays and tables nest at most `depth` deep. -/
def readValue (depth : Nat) (t : List Char) : Option (Value × List Char) :=
  match depth, t with
  | 0, '[' :: _ | 0, '\x7b' :: _ => none
  | depth + 1, '[' :: t =>
    (readItems (readValue depth) t.length t).map fun (items, rest) => (.array items, rest)
  | depth + 1, '\x7b' :: t =>
    (readBraces (readValue depth) t).map fun (table, rest) => (.table .braces table, rest)
  | _, t => readScalar t

/-! ### Lines -/

/-- What follows the rest of a line on which nothing more is said. -/
def afterLine? (t : List Char) : Option (List Char) :=
  match skipBlanks t with
  | [] => some []
  | '#' :: t =>
    match t.dropWhile isPlain with
    | [] => some []
    | t => afterNewline? t
  | t => afterNewline? t

def readStatement : List Char → Option (Statement × List Char)
  | '[' :: '[' :: t => do
    let (p, t) ← readPath maxDepth t
    return (.doubleHeader p, ← expect ']' (← expect ']' t))
  | '[' :: t => do
    let (p, t) ← readPath maxDepth t
    return (.header p, ← expect ']' t)
  | t => do
    let (p, v, t) ← readPair (readValue maxDepth) t
    return (.definition p v, t)

/-- The statements of the lines of a text. -/
def readStatements : (fuel : Nat) → List Char → Option (List Statement)
  | _, [] => some []
  | 0, _ => none
  | fuel + 1, t =>
    match afterLine? t with
    | some rest => readStatements fuel rest
    | none => do
      let (s, t) ← readStatement (skipBlanks t)
      return s :: (← readStatements fuel (← afterLine? t))

end ScaleWatch.Toml
