import ScaleWatch.Http.Target
import ScaleWatch.Json

/-!
# Requests and responses

A request is what routing looks at: method, path, media type and body. `Request.ofParts?` refuses
parts from which no request can be made. A response says everything but the wording of a refusal
that comes from the transport itself (`Body.notice`).
-/

namespace ScaleWatch.Http

inductive Method where
  | get
  | head
  | post
  | put
  | delete
  /-- A method that no resource knows. -/
  | other
  deriving DecidableEq

def Method.name : Method → String
  | get => "GET"
  | head => "HEAD"
  | post => "POST"
  | put => "PUT"
  | delete => "DELETE"
  | other => ""

/-- The method of a name; any token is a method, and names differ by case. -/
def Method.ofName? (t : List Char) : Option Method :=
  match [Method.get, head, post, put, delete].find? (·.name.toList = t) with
  | some m => some m
  | none => if t ≠ [] ∧ t.all isMethodChar then some other else none
where
  isMethodChar (c : Char) : Bool :=
    c.isAlphanum ||
      c ∈ ['!', '#', '$', '%', '&', '\x27', '*', '+', '-', '.', '^', '_', '\x60', '|', '~']

structure Request where
  method : Method
  path : List Char
  /-- The media type, if the body has one that is ASCII. -/
  mediaType : Option (List Char)
  body : List Char

/-- Whether a text may be the value of a header. -/
def isHeaderValue (t : List Char) : Bool :=
  t.all fun c => c = '\t' || (0x20 ≤ c.toNat && c.toNat ≠ 0x7F)

def Request.ofParts? (method target : List Char) (mediaType : Option (List Char))
    (body : List Char) : Option Request := do
  let m ← Method.ofName? method
  let path ← Target.path? target
  guard (mediaType.all isHeaderValue)
  return ⟨m, path, mediaType.filter (·.all (·.toNat < 0x80)), body⟩

inductive Body where
  | empty
  | json (v : Json)
  /-- Metrics as text. -/
  | exposition (text : String)
  /-- A refusal by the transport, in words of its own. -/
  | notice

/-- The media type of the text exposition. -/
def expositionMediaType : String :=
  "text/plain; version=0.0.4; charset=utf-8"

structure Response where
  status : Nat
  /-- The methods of the resource, when the one asked for is not among them. -/
  allow : List Method
  body : Body

namespace Response

/-- Success, with data. -/
def ok (status : Nat) (data : Json) : Response :=
  ⟨status, [], .json (.object [("success", .bool true), ("data", data)])⟩

/-- Refusal by the program, with its reason. -/
def error (status : Nat) (reason : String) : Response :=
  ⟨status, [], .json (.object [("success", .bool false), ("error", .ofText reason)])⟩

/-- Refusal by the transport. -/
def refusal (status : Nat) : Response :=
  ⟨status, [], .notice⟩

/-- The same answer without its body. -/
def withoutBody (r : Response) : Response :=
  { r with body := .empty }

end Response

end ScaleWatch.Http
