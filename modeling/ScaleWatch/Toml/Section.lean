import ScaleWatch.Text.Hex
import ScaleWatch.Text.Numeral
import ScaleWatch.Toml.Value

/-!
# Writing TOML

What the program writes in TOML is a list of sections: a header with settings below it, which are
numbers, texts and lists of texts. `Section.chars` writes them in one way each, and `Section.entry`
is what they mean.
-/

namespace ScaleWatch.Toml

open Text

/-! ### Quoted texts -/

/-- A character inside a quoted text. -/
def escape (c : Char) : List Char :=
  if c = '"' then ['\\', '"']
  else if c = '\\' then ['\\', '\\']
  else if c = '\n' then ['\\', 'n']
  else if c = '\r' then ['\\', 'r']
  else if c = '\t' then ['\\', 't']
  else if c = '\x08' then ['\\', 'b']
  else if c = '\x0c' then ['\\', 'f']
  else if c.toNat < 0x20 ∨ c.toNat = 0x7F then '\\' :: 'u' :: Hex.upper4 c.toNat
  else [c]

def quoteLine (t : List Char) : List Char :=
  '"' :: (t.flatMap escape ++ ['"'])

/-- A text between three quotes, where line feeds stand for themselves; the first line is left
empty. -/
def quoteBlock (t : List Char) : List Char :=
  "\"\"\"\n".toList ++ (t.flatMap fun c => if c = '\n' then ['\n'] else escape c) ++ "\"\"\"".toList

/-- A text with line feeds is written as a block, any other on one line. -/
def quote (t : List Char) : List Char :=
  if '\n' ∈ t then quoteBlock t else quoteLine t

/-! ### Settings -/

inductive Setting where
  | number (n : Nat)
  | text (t : List Char)
  | texts (ts : List (List Char))

namespace Setting

/-- An item on a line of its own. -/
def itemLine (t : List Char) : List Char :=
  "    ".toList ++ quote t ++ ",\n".toList

/-- A list with several items has each of them on a line of its own. -/
def chars : Setting → List Char
  | number n => Numeral.digits n
  | text t => quote t
  | texts [] => "[]".toList
  | texts [t] => '[' :: (quote t ++ [']'])
  | texts ts => "[\n".toList ++ ts.flatMap itemLine ++ [']']

def value : Setting → Value
  | number n => .integer n
  | text t => .string t
  | texts ts => .array (ts.map .string)

end Setting

/-- A header and what is set below it. -/
structure Section where
  name : List Char
  settings : List (List Char × Setting)

namespace Section

def chars (s : Section) : List Char :=
  '[' :: (s.name ++ "]\n".toList) ++
    s.settings.flatMap fun (name, v) => name ++ " = ".toList ++ v.chars ++ ['\n']

/-- Sections with an empty line between them. -/
def allChars : List Section → List Char
  | [] => []
  | [s] => s.chars
  | s :: more => s.chars ++ '\n' :: allChars more

def entry (s : Section) : List Char × Value :=
  (s.name, .table .header (s.settings.map fun (name, v) => (name, v.value)))

end Section

end ScaleWatch.Toml
