import ScaleWatch.Json.Literal
import ScaleWatch.Text.Hex

/-!
# Outlines of JSON texts

Whether a text is JSON and whether it has a wanted shape are two questions, and the answer that is
met first, reading from the left, is the one that counts. So a text is read into an `Outline`,
which never fails: it holds what the text says up to the first character that rules it out, where
it is `broken` or left open. Numbers and quoted texts keep just enough to be judged later, since
a value that nobody asks for may hold escapes and magnitudes that a wanted one may not.
-/

namespace ScaleWatch.Json

open Text

inductive Outline where
  | null
  | bool (b : Bool)
  | number (l : Literal)
  /-- A quoted text; it has no characters if an escape in it names half a surrogate pair. -/
  | string (t : Option (List Char))
  /-- The items of an array as far as they go, and whether it is closed. -/
  | array (items : List Outline) (closed : Bool)
  /-- The members of an object as far as they go, and whether it is closed. A name, too, has no
  characters if it holds half a surrogate pair. -/
  | object (members : List (Option (List Char) × Outline)) (closed : Bool)
  | broken

namespace Outline

/-! ### Lexical parts -/

def isSpace (c : Char) : Bool :=
  c = ' ' || c = '\t' || c = '\n' || c = '\r'

def skipSpace (t : List Char) : List Char :=
  t.dropWhile isSpace

/-- A piece of a quoted text: a character as it stands, or a 16-bit unit from an escape. -/
inductive Piece where
  | char (c : Char)
  | unit (n : Nat)

/-- The character that a short escape stands for. -/
def shortEscape? : Char → Option Char
  | '"' => some '"'
  | '\\' => some '\\'
  | '/' => some '/'
  | 'b' => some '\x08'
  | 'f' => some '\x0c'
  | 'n' => some '\n'
  | 'r' => some '\r'
  | 't' => some '\t'
  | _ => none

/-- The pieces of a quoted text up to its closing quote, and what follows it. -/
def readPieces : List Char → Option (List Piece × List Char)
  | [] => none
  | '"' :: rest => some ([], rest)
  | '\\' :: 'u' :: a :: b :: c :: d :: rest => do
    let n ← Hex.value? [a, b, c, d]
    let (pieces, rest) ← readPieces rest
    return (.unit n :: pieces, rest)
  | '\\' :: e :: rest => do
    let c ← shortEscape? e
    let (pieces, rest) ← readPieces rest
    return (.char c :: pieces, rest)
  | c :: rest => do
    guard (0x20 ≤ c.toNat)
    let (pieces, rest) ← readPieces rest
    return (.char c :: pieces, rest)

def isHighSurrogate (n : Nat) : Bool :=
  0xD800 ≤ n && n < 0xDC00

def isLowSurrogate (n : Nat) : Bool :=
  0xDC00 ≤ n && n < 0xE000

/-- The characters of the pieces, units joined in pairs; nothing if half a pair is left over. -/
def join? : List Piece → Option (List Char)
  | [] => some []
  | .char c :: rest => (join? rest).map (c :: ·)
  | .unit hi :: .unit lo :: rest =>
    if isHighSurrogate hi && isLowSurrogate lo then
      (join? rest).map (Char.ofNat (0x10000 + (hi - 0xD800) * 0x400 + (lo - 0xDC00)) :: ·)
    else if isHighSurrogate hi || isLowSurrogate hi then none
    else (join? (.unit lo :: rest)).map (Char.ofNat hi :: ·)
  | .unit n :: rest =>
    if isHighSurrogate n || isLowSurrogate n then none
    else (join? rest).map (Char.ofNat n :: ·)

/-- The name of a member, which must be a text. -/
def readName (t : List Char) : Option (Option (List Char) × List Char) :=
  match skipSpace t with
  | '"' :: t => (readPieces t).map fun (pieces, rest) => (join? pieces, rest)
  | _ => none

/-! ### Values -/

mutual

/-- Read a value; nothing follows one that is not complete. -/
def readValue : Nat → List Char → Outline × Option (List Char)
  | 0, _ => (broken, none)
  | fuel + 1, t =>
    match skipSpace t with
    | '[' :: t =>
      match skipSpace t with
      | ']' :: rest => (array [] true, some rest)
      | t =>
        let (items, rest) := readItems fuel t
        (array items rest.isSome, rest)
    | '{' :: t =>
      match skipSpace t with
      | '}' :: rest => (object [] true, some rest)
      | t =>
        let (members, rest) := readMembers fuel t
        (object members rest.isSome, rest)
    | '"' :: t =>
      match readPieces t with
      | some (pieces, rest) => (string (join? pieces), some rest)
      | none => (broken, none)
    | 'n' :: 'u' :: 'l' :: 'l' :: rest => (null, some rest)
    | 't' :: 'r' :: 'u' :: 'e' :: rest => (bool true, some rest)
    | 'f' :: 'a' :: 'l' :: 's' :: 'e' :: rest => (bool false, some rest)
    | t =>
      match Literal.read? t with
      | some (l, rest) => (number l, some rest)
      | none => (broken, none)

/-- Read the items of an array, from the first on. -/
def readItems : Nat → List Char → List Outline × Option (List Char)
  | 0, _ => ([], none)
  | fuel + 1, t =>
    match readValue fuel t with
    | (v, none) => ([v], none)
    | (v, some t) =>
      match skipSpace t with
      | ',' :: t =>
        let (items, rest) := readItems fuel t
        (v :: items, rest)
      | ']' :: rest => ([v], some rest)
      | _ => ([v], none)

/-- Read the members of an object, from the first on. -/
def readMembers :
    Nat → List Char → List (Option (List Char) × Outline) × Option (List Char)
  | 0, _ => ([], none)
  | fuel + 1, t =>
    match readName t with
    | none => ([], none)
    | some (name, t) =>
      match skipSpace t with
      | ':' :: t =>
        match readValue fuel t with
        | (v, none) => ([(name, v)], none)
        | (v, some t) =>
          match skipSpace t with
          | ',' :: t =>
            let (members, rest) := readMembers fuel t
            ((name, v) :: members, rest)
          | '}' :: rest => ([(name, v)], some rest)
          | _ => ([(name, v)], none)
      | _ => ([(name, broken)], none)

end
/-- Each value takes at least one character, and reading one takes at most two steps for it. -/
def read (t : List Char) : Outline × Option (List Char) :=
  readValue (2 * t.length + 2) t

mutual

/-- Whether a value is JSON to its end. -/
def intact : Outline → Bool
  | null | bool _ | number _ | string _ => true
  | array items closed => closed && intactItems items
  | object members closed => closed && intactMembers members
  | broken => false

def intactItems : List Outline → Bool
  | [] => true
  | v :: rest => intact v && intactItems rest

def intactMembers : List (Option (List Char) × Outline) → Bool
  | [] => true
  | (_, v) :: rest => intact v && intactMembers rest

end

end Outline

end ScaleWatch.Json
