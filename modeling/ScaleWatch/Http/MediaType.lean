/-!
# Media types

A body is taken for JSON when its media type says so: the type is `application` and the subtype is
`json` or has the suffix `+json`. Parameters may follow but must be well formed. The last plus sign
of a subtype splits off its suffix.
-/

namespace ScaleWatch.Http.MediaType

def isTokenChar (c : Char) : Bool :=
  c.isAlphanum ||
    c ∈ ['!', '#', '$', '%', '&', '\x27', '*', '+', '-', '.', '^', '_', '\x60', '|', '~']

/-- A character that may stand between quotes. -/
def isQuotable (c : Char) : Bool :=
  0x20 ≤ c.toNat && c.toNat ≤ 0x7E

/-! ### Parameters -/

/-- How far a list of parameters has been read. -/
inductive ParameterScan where
  | beforeName
  | name
  | beforeValue
  | value
  | quoteOpened
  | quoted
  | quoteClosed

open ParameterScan in
def ParameterScan.next : ParameterScan → Char → Option ParameterScan
  | beforeName, c => if c = ' ' then some beforeName else if isTokenChar c then some name else none
  | name, c => if c = '=' then some beforeValue else if isTokenChar c then some name else none
  | beforeValue, c =>
    if c = '"' then some quoteOpened else if isTokenChar c then some value else none
  | value, c => if c = ';' then some beforeName else if isTokenChar c then some value else none
  | quoteOpened, c => if isQuotable c then some quoted else none
  | quoted, c => if c = '"' then some quoteClosed else if isQuotable c then some quoted else none
  | quoteClosed, c =>
    if c = ';' then some beforeName else if c = ' ' then some quoteClosed else none

/-- Whether a list of parameters may end here. -/
def ParameterScan.mayEnd : ParameterScan → Bool
  | .beforeName | .beforeValue | .value | .quoteClosed => true
  | .name | .quoteOpened | .quoted => false

def areParameters (t : List Char) : Bool :=
  match t.foldlM ParameterScan.next .beforeName with
  | some s => s.mayEnd
  | none => false

/-! ### Types -/

def lower (t : List Char) : List Char :=
  t.map Char.toLower

/-- Whether a subtype is JSON, itself or by its suffix. A plus sign at its start splits nothing. -/
def isJsonSubtype (subtype : List Char) : Bool :=
  let suffix := (subtype.reverse.takeWhile (· ≠ '+')).reverse
  let stem := subtype.take (subtype.length - suffix.length - 1)
  if stem.isEmpty then lower subtype == "json".toList
  else lower stem == "json".toList || lower suffix == "json".toList

/-- Whether a media type is written well and names JSON. -/
def isJson (t : List Char) : Bool :=
  let type := t.takeWhile (· ≠ '/')
  match t.drop type.length with
  | '/' :: rest =>
    let subtype := rest.takeWhile (· ≠ ';')
    let parameters := (rest.drop subtype.length).drop 1
    lower type == "application".toList && subtype.all isTokenChar && isJsonSubtype subtype &&
      areParameters parameters
  | _ => false

end ScaleWatch.Http.MediaType
