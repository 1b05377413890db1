import ScaleWatch.Text.Hex
import ScaleWatch.Text.Utf8

/-!
# Request targets

A request names its resource by a target: usually a path with an optional query, but also an
absolute URI, a bare authority or an asterisk. `Target.path?` gives the path that routing looks
at, or nothing if the target is malformed. Segments of a path may hold percent escapes, which
`Target.decodeSegment?` resolves.
-/

namespace ScaleWatch.Http.Target

open Text

/-- The number of octets that a target may have. -/
def maxOctets : Nat := 65534

/-! ### Path and query -/

def isPathChar (c : Char) : Bool :=
  let n := c.toNat
  n == 0x21 || n == 0x22 || (0x24 ≤ n && n ≤ 0x3B) || n == 0x3D || (0x40 ≤ n && n ≤ 0x5F) ||
    (0x61 ≤ n && n ≠ 0x7F)

def isQueryChar (c : Char) : Bool :=
  let n := c.toNat
  n == 0x21 || (0x24 ≤ n && n ≤ 0x3B) || n == 0x3D || (0x3F ≤ n && n ≠ 0x7F)

/-- The path of a path with an optional query and an ignored fragment. -/
def pathOfReference? (t : List Char) : Option (List Char) :=
  let path := t.takeWhile fun c => c ≠ '?' ∧ c ≠ '#'
  let query :=
    match t.drop path.length with
    | '?' :: rest => rest.takeWhile (· ≠ '#')
    | _ => []
  if path.all isPathChar && query.all isQueryChar then some path else none

/-! ### Authority and scheme -/

def isUnreserved (c : Char) : Bool :=
  c.isAlphanum || c ∈ ['-', '.', '_', '~', '!', '$', '&', '(', ')', '*', '+', ',', ';', '=', '\x27']

/-- What has been seen of an authority. -/
structure AuthorityScan where
  colons : Nat
  opened : Bool
  closed : Bool
  percent : Bool
  endsAtSign : Bool

def AuthorityScan.next (s : AuthorityScan) (c : Char) : Option AuthorityScan :=
  let s := { s with endsAtSign := c = '@' }
  if c = ':' then if s.colons < 8 then some { s with colons := s.colons + 1 } else none
  else if c = '[' then if s.percent || s.opened then none else some { s with opened := true }
  else if c = ']' then
    if s.opened && !s.closed then some { s with closed := true, colons := 0, percent := false }
    else none
  else if c = '@' then some { s with colons := 0, percent := false }
  else if c = '%' then some { s with percent := true }
  else if isUnreserved c then some s
  else none

/-- Whether a text is an authority: user information, a host and a port. -/
def isAuthority (t : List Char) : Bool :=
  match t.foldlM AuthorityScan.next ⟨0, false, false, false, false⟩ with
  | some s => s.opened == s.closed && s.colons ≤ 1 && !s.endsAtSign && !s.percent
  | none => false

def isSchemeChar (c : Char) : Bool :=
  c.isAlphanum || c ∈ ['+', '-', '.', '~']

/-- What follows the scheme, if there is one. -/
def afterScheme? (t : List Char) : Option (List Char) :=
  match t.dropWhile isSchemeChar with
  | ':' :: '/' :: '/' :: rest => some rest
  | _ => none

def maxSchemeLength : Nat := 64

/-- The path of an absolute URI or of a bare authority, which has none. -/
def pathOfAbsolute? (t : List Char) : Option (List Char) :=
  match afterScheme? t with
  | none => if isAuthority t then some [] else none
  | some rest =>
    let authority := rest.takeWhile fun c => c ≠ '/' ∧ c ≠ '?' ∧ c ≠ '#'
    if maxSchemeLength < (t.takeWhile isSchemeChar).length || authority.isEmpty ||
      !isAuthority authority then none
    else
      (pathOfReference? (rest.drop authority.length)).map fun path =>
        if path.isEmpty then ['/'] else path

/-- The path that a target names. -/
def path? (t : List Char) : Option (List Char) :=
  if maxOctets < (Utf8.encode t).length then none
  else
    match t with
    | [] => none
    | ['*'] => some ['*']
    | '/' :: _ => pathOfReference? t
    | _ => pathOfAbsolute? t

/-! ### Segments -/

/-- The octets of a segment; a percent sign that starts no escape stands for itself. -/
def segmentOctets : List Char → List UInt8
  | [] => []
  | '%' :: a :: b :: rest =>
    match Hex.digit? a, Hex.digit? b with
    | some x, some y => .ofNat (16 * x + y) :: segmentOctets rest
    | _, _ => Utf8.encode ['%'] ++ segmentOctets (a :: b :: rest)
  | c :: rest => Utf8.encode [c] ++ segmentOctets rest

/-- The text that a segment stands for, if its octets are text. -/
def decodeSegment? (segment : List Char) : Option (List Char) :=
  Utf8.decode? (segmentOctets segment)

end ScaleWatch.Http.Target
