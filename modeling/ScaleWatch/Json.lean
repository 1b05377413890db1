import ScaleWatch.Text.Hex
import ScaleWatch.Text.Numeral

/-!
# JSON values and their compact text

What the program says in JSON is a `Json` value, and `Json.chars` writes it without any white
space. Members keep the order in which they are given. Numbers are natural: nothing else is ever
said.
-/

namespace ScaleWatch

inductive Json where
  | null
  | bool (b : Bool)
  | number (n : Nat)
  | string (t : List Char)
  | array (items : List Json)
  | object (members : List (String × Json))

namespace Json

open Text

def ofText (s : String) : Json :=
  string s.toList

def ofOption (f : α → Json) : Option α → Json
  | some a => f a
  | none => null

/-- A character inside a quoted text. -/
def escape (c : Char) : List Char :=
  if c = '"' then ['\\', '"']
  else if c = '\\' then ['\\', '\\']
  else if c = '\n' then ['\\', 'n']
  else if c = '\r' then ['\\', 'r']
  else if c = '\t' then ['\\', 't']
  else if c = '\x08' then ['\\', 'b']
  else if c = '\x0c' then ['\\', 'f']
  else if c.toNat < 0x20 then '\\' :: 'u' :: Hex.lower4 c.toNat
  else [c]

def quote (t : List Char) : List Char :=
  '"' :: (t.flatMap escape ++ ['"'])

mutual

def chars : Json → List Char
  | null => "null".toList
  | bool true => "true".toList
  | bool false => "false".toList
  | number n => Numeral.digits n
  | string t => quote t
  | array items => '[' :: (itemChars items ++ [']'])
  | object members => '{' :: (memberChars members ++ ['}'])

/-- The items of an array, with commas between them. -/
def itemChars : List Json → List Char
  | [] => []
  | [v] => chars v
  | v :: w :: rest => chars v ++ ',' :: itemChars (w :: rest)

/-- The members of an object, with commas between them. -/
def memberChars : List (String × Json) → List Char
  | [] => []
  | [(name, v)] => quote name.toList ++ ':' :: chars v
  | (name, v) :: m :: rest => quote name.toList ++ ':' :: chars v ++ ',' :: memberChars (m :: rest)

end

def text (v : Json) : String :=
  String.ofList v.chars

end Json

end ScaleWatch
