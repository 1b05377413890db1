import ScaleWatch.Text.Hex
import ScaleWatch.Text.Magnitude
import ScaleWatch.Toml.Value

/-!
# TOML scalars

Quoted texts, numbers, dates and times. Every reader takes the text from where its scalar begins
and gives what it read with what follows, or nothing if there is no such scalar there.
-/

namespace ScaleWatch.Toml

open Text

/-! ### Characters -/

/-- A space or a tab, the only blanks inside a line. -/
def isBlank (c : Char) : Bool :=
  c = ' ' || c = '\t'

def skipBlanks (t : List Char) : List Char :=
  t.dropWhile isBlank

/-- A character that a comment or a quoted text may hold as it stands. -/
def isPlain (c : Char) : Bool :=
  c = '\t' || (0x20 ≤ c.toNat && c.toNat ≠ 0x7F)

/-- A line end, if one comes next. -/
def afterNewline? : List Char → Option (List Char)
  | '\n' :: t => some t
  | '\r' :: '\n' :: t => some t
  | _ => none

/-- The text without a line end at its start. -/
def dropNewline (t : List Char) : List Char :=
  (afterNewline? t).getD t

/-! ### Quoted texts -/

def shortEscape? : Char → Option Char
  | 'b' => some '\x08'
  | 't' => some '\t'
  | 'n' => some '\n'
  | 'f' => some '\x0c'
  | 'r' => some '\r'
  | '"' => some '"'
  | '\\' => some '\\'
  | _ => none

/-- The character with the code point that hexadecimal digits spell. -/
def scalar? (digits : List Char) : Option Char := do
  let n ← Hex.value? digits
  guard n.isValidChar
  return Char.ofNat n

/-- Put a character in front of what was read. -/
def consRead (c : Char) : Option (List Char × List Char) → Option (List Char × List Char)
  | some (read, rest) => some (c :: read, rest)
  | none => none

/-- The rest of a basic string, behind its opening quote. -/
def readBasic : List Char → Option (List Char × List Char)
  | [] => none
  | '"' :: rest => some ([], rest)
  | '\\' :: 'u' :: a :: b :: c :: d :: rest => do
    consRead (← scalar? [a, b, c, d]) (readBasic rest)
  | '\\' :: 'U' :: a :: b :: c :: d :: e :: f :: g :: h :: rest => do
    consRead (← scalar? [a, b, c, d, e, f, g, h]) (readBasic rest)
  | '\\' :: e :: rest => do
    consRead (← shortEscape? e) (readBasic rest)
  | c :: rest => if isPlain c then consRead c (readBasic rest) else none

/-- Whether a backslash that is followed by `t` only joins lines. -/
def joinsLines (t : List Char) : Bool :=
  (afterNewline? (skipBlanks t)).isSome

/-- The rest of a multi-line basic string. Up to two quotes may stand in front of the closing
three; `joining` says that blanks and line ends are being skipped behind a backslash. -/
def readBasicBlock (joining : Bool) : List Char → Option (List Char × List Char)
  | [] => none
  | '"' :: '"' :: '"' :: '"' :: '"' :: rest => some (['"', '"'], rest)
  | '"' :: '"' :: '"' :: '"' :: rest => some (['"'], rest)
  | '"' :: '"' :: '"' :: rest => some ([], rest)
  | '\r' :: '\n' :: rest =>
    if joining then readBasicBlock true rest else consRead '\n' (readBasicBlock false rest)
  | '\n' :: rest =>
    if joining then readBasicBlock true rest else consRead '\n' (readBasicBlock false rest)
  | '\\' :: 'u' :: a :: b :: c :: d :: rest => do
    consRead (← scalar? [a, b, c, d]) (readBasicBlock false rest)
  | '\\' :: 'U' :: a :: b :: c :: d :: e :: f :: g :: h :: rest => do
    consRead (← scalar? [a, b, c, d, e, f, g, h]) (readBasicBlock false rest)
  | '\\' :: e :: rest =>
    if joinsLines (e :: rest) then readBasicBlock true (e :: rest)
    else do consRead (← shortEscape? e) (readBasicBlock false rest)
  | c :: rest =>
    if joining && isBlank c then readBasicBlock true rest
    else if isPlain c then consRead c (readBasicBlock false rest)
    else none

/-- The rest of a literal string, in which nothing is escaped. -/
def readLiteral : List Char → Option (List Char × List Char)
  | [] => none
  | '\x27' :: rest => some ([], rest)
  | c :: rest => if isPlain c then consRead c (readLiteral rest) else none

/-- The rest of a multi-line literal string. -/
def readLiteralBlock : List Char → Option (List Char × List Char)
  | [] => none
  | '\x27' :: '\x27' :: '\x27' :: '\x27' :: '\x27' :: rest => some (['\x27', '\x27'], rest)
  | '\x27' :: '\x27' :: '\x27' :: '\x27' :: rest => some (['\x27'], rest)
  | '\x27' :: '\x27' :: '\x27' :: rest => some ([], rest)
  | '\r' :: '\n' :: rest => consRead '\n' (readLiteralBlock rest)
  | '\n' :: rest => consRead '\n' (readLiteralBlock rest)
  | c :: rest => if isPlain c then consRead c (readLiteralBlock rest) else none

/-- A quoted text of any kind. -/
def readString : List Char → Option (List Char × List Char)
  | '"' :: '"' :: '"' :: t => readBasicBlock false (dropNewline t)
  | '"' :: t => readBasic t
  | '\x27' :: '\x27' :: '\x27' :: t => readLiteralBlock (dropNewline t)
  | '\x27' :: t => readLiteral t
  | _ => none

/-! ### Dates and times -/

/-- A number of exactly `width` digits in a range. -/
def readField (width low high : Nat) (t : List Char) : Option (Nat × List Char) := do
  let digits := t.take width
  guard (digits.length = width ∧ digits.all Char.isDigit)
  let n := Nat.ofDigitChars 10 digits 0
  guard (low ≤ n ∧ n ≤ high)
  return (n, t.drop width)

/-- What follows a given character. -/
def expect (c : Char) : List Char → Option (List Char)
  | d :: t => if d = c then some t else none
  | [] => none

def isLeapYear (year : Nat) : Bool :=
  (year % 4 == 0 && year % 100 != 0) || year % 400 == 0

def daysInMonth (year month : Nat) : Nat :=
  if month = 2 then if isLeapYear year then 29 else 28
  else if month ∈ [4, 6, 9, 11] then 30
  else 31

/-- What follows a fraction of a second, if there is one. -/
def afterSecondFraction (t : List Char) : List Char :=
  match t with
  | '.' :: d :: rest => if d.isDigit then rest.dropWhile Char.isDigit else t
  | _ => t

/-- What follows a time of day. -/
def afterTime? (t : List Char) : Option (List Char) := do
  let (_, t) ← readField 2 0 23 t
  let (_, t) ← readField 2 0 59 (← expect ':' t)
  let (_, t) ← readField 2 0 60 (← expect ':' t)
  return afterSecondFraction t

/-- What follows a date. -/
def afterDate? (t : List Char) : Option (List Char) := do
  let (year, t) ← readField 4 0 9999 t
  let (month, t) ← readField 2 1 12 (← expect '-' t)
  let (_, t) ← readField 2 1 (daysInMonth year month) (← expect '-' t)
  return t

/-- What follows an offset from universal time, if there is one; nothing if it is malformed. -/
def afterOffset? : List Char → Option (List Char)
  | 'Z' :: t | 'z' :: t => some t
  | '+' :: t | '-' :: t => do
    let (_, t) ← readField 2 0 23 t
    let (_, t) ← readField 2 0 59 (← expect ':' t)
    return t
  | t => some t

/-- What follows a date with an optional time behind a `T` or a space. -/
def afterDateTime? (t : List Char) : Option (List Char) := do
  let t ← afterDate? t
  match t with
  | c :: rest =>
    if c = 'T' ∨ c = 't' ∨ c = ' ' then
      -- A time that has begun must be complete; a space may as well end the value.
      if (readField 2 0 23 rest).any fun (_, r) => r.head? = some ':' then
        afterOffset? (← afterTime? rest)
      else some t
    else some t
  | [] => some t

/-- Whether a date begins here: four digits and a hyphen. -/
def beginsDate (t : List Char) : Bool :=
  (t.take 4).length == 4 && (t.take 4).all Char.isDigit && (t.drop 4).head? == some '-'

/-- Whether a time begins here: two digits and a colon. -/
def beginsTime (t : List Char) : Bool :=
  (t.take 2).length == 2 && (t.take 2).all Char.isDigit && (t.drop 2).head? == some ':'

/-! ### Numbers -/

/-- The digits of a number, which single underscores may separate, and what follows them. -/
def readDigits (isDigit : Char → Bool) : List Char → List Char × List Char
  | '_' :: d :: t =>
    if isDigit d then
      let (digits, rest) := readDigits isDigit t
      (d :: digits, rest)
    else ([], '_' :: d :: t)
  | d :: t =>
    if isDigit d then
      let (digits, rest) := readDigits isDigit t
      (d :: digits, rest)
    else ([], d :: t)
  | [] => ([], [])

/-- At least one digit, the first of them not behind an underscore. -/
def readDigits1 (isDigit : Char → Bool) : List Char → Option (List Char × List Char)
  | d :: t => if isDigit d then some (readDigits isDigit (d :: t)) else none
  | [] => none

/-- The digits of a decimal number: a zero alone, or digits of which the first is none. -/
def readWhole : List Char → Option (List Char × List Char)
  | '0' :: t => some (['0'], t)
  | t => readDigits1 Char.isDigit t

def minInteger : Int := Int64.minValue.toInt

def maxInteger : Int := Int64.maxValue.toInt

def integer? (n : Int) : Option Value :=
  if minInteger ≤ n ∧ n ≤ maxInteger then some (.integer n) else none

/-- A sign, and whether it is a minus. -/
def readSign : List Char → Bool × List Char
  | '+' :: t => (false, t)
  | '-' :: t => (true, t)
  | t => (false, t)

/-- An integer in hexadecimal, octal or binary digits, behind what announces them. -/
def readRadix (base : Nat) (t : List Char) : Option (Value × List Char) := do
  let isDigit (c : Char) : Bool := (Hex.digit? c).any (· < base)
  let (digits, rest) ← readDigits1 isDigit t
  let n := digits.foldl (fun n c => base * n + (Hex.digit? c).getD 0) 0
  return (← integer? n, rest)

/-- The digits behind a point, if there is a point. -/
def readFraction : List Char → Option (Option (List Char) × List Char)
  | '.' :: t => do
    let (digits, rest) ← readDigits1 Char.isDigit t
    return (some digits, rest)
  | t => some (none, t)

/-- The exponent, if there is one. -/
def readExponent : List Char → Option (Option Int × List Char)
  | e :: t =>
    if e = 'e' ∨ e = 'E' then do
      let (negative, t) := readSign t
      let (digits, rest) ← readDigits1 Char.isDigit t
      let n : Int := Nat.ofDigitChars 10 digits 0
      return (some (if negative then -n else n), rest)
    else some (none, e :: t)
  | [] => some (none, [])

/-- A decimal number. A positive float must not be beyond double precision. -/
def readDecimal (t : List Char) : Option (Value × List Char) := do
  let (negative, t) := readSign t
  match t with
  | 'i' :: 'n' :: 'f' :: rest | 'n' :: 'a' :: 'n' :: rest => return (.float, rest)
  | _ =>
    let (whole, t) ← readWhole t
    let (fraction, t) ← readFraction t
    let (exponent, rest) ← readExponent t
    if fraction.isSome || exponent.isSome then
      let digits := fraction.getD []
      guard (negative ∨
        !Magnitude.exceedsDouble (whole ++ digits) (exponent.getD 0 - digits.length))
      return (.float, rest)
    else
      let n : Int := Nat.ofDigitChars 10 whole 0
      return (← integer? (if negative then -n else n), rest)

/-- A number, a date or a time. -/
def readNumeric (t : List Char) : Option (Value × List Char) :=
  if beginsDate t then (afterDateTime? t).map (.dateTime, ·)
  else if beginsTime t then (afterTime? t).map (.dateTime, ·)
  else
    match t with
    | '0' :: 'x' :: t => readRadix 16 t
    | '0' :: 'o' :: t => readRadix 8 t
    | '0' :: 'b' :: t => readRadix 2 t
    | t => readDecimal t

/-- A value without parts. -/
def readScalar : List Char → Option (Value × List Char)
  | 't' :: 'r' :: 'u' :: 'e' :: rest => some (.boolean true, rest)
  | 'f' :: 'a' :: 'l' :: 's' :: 'e' :: rest => some (.boolean false, rest)
  | t =>
    match t with
    | '"' :: _ | '\x27' :: _ => (readString t).map fun (s, rest) => (.string s, rest)
    | _ => readNumeric t

end ScaleWatch.Toml
