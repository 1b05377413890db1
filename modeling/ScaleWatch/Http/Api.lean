import ScaleWatch.Http.MediaType
import ScaleWatch.Http.Message
import ScaleWatch.Text.Utf8
import ScaleWatch.Wire

/-!
# The control surface over HTTP

External actors register keys, set thresholds, release gates and post batches of events over
HTTP. A path names a resource (`Resource.ofPath?`), a resource knows some methods, and each of
these is one function on the monitor. A request that is answered with a status of 400 or more
leaves the monitor as it was, but for the count of refused registrations.
-/

namespace ScaleWatch.Http

/-! ### Resources -/

inductive Resource where
  | keys
  /-- A key, as its segment is written. -/
  | key (segment : List Char)
  | gate (segment : List Char)
  | thresholds
  /-- A threshold slot, as its segment is written. -/
  | slot (segment : List Char)
  | events
  | stats
  | metrics
  deriving DecidableEq

namespace Resource

/-- The resource at a path below the root, segment by segment. A path that ends in an empty segment
names nothing, while an empty segment further up is taken for what it stands for. -/
def ofSegments? (segments : List String) : Option Resource :=
  match segments with
  | ["metrics"] => some metrics
  | "api" :: "v1" :: rest =>
    match rest with
    | ["keys"] => some keys
    | ["keys", k] => if k = "" then none else some (key k.toList)
    | ["keys", k, "gate"] => some (gate k.toList)
    | ["thresholds"] => some thresholds
    | ["thresholds", i] => if i = "" then none else some (slot i.toList)
    | ["events"] => some events
    | ["stats"] => some stats
    | _ => none
  | _ => none

def ofPath? (path : List Char) : Option Resource :=
  match path with
  | '/' :: rest => ofSegments? ((rest.splitOn '/').map String.ofList)
  | _ => none

def methods : Resource → List Method
  | keys | stats | metrics => [.get, .head]
  | key _ => [.get, .head, .post, .delete]
  | gate _ => [.delete]
  | thresholds => [.get, .head, .put]
  | slot _ => [.put]
  | events => [.post]

end Resource

/-! ### Reading requests -/

/-- The number of octets that a body may have. -/
def maxBodyOctets : Nat := 2 * 1024 * 1024

def statusOf : Json.Refusal → Nat
  | .malformed => 400
  | .misshapen => 422

/-- The value that the body of a request holds. -/
def Request.read (r : Request) (shape : Json.Shape α) : Except Response α :=
  if !r.mediaType.any MediaType.isJson then .error (.refusal 415)
  else if maxBodyOctets < (Text.Utf8.encode r.body).length then .error (.refusal 413)
  else
    match shape.decode r.body with
    | .ok a => .ok a
    | .error refusal => .error (.refusal (statusOf refusal))

/-- The key that a segment names. -/
def readKey (segment : List Char) : Except Response Key :=
  match Target.decodeSegment? segment with
  | none => .error (.refusal 400)
  | some t =>
    match Key.parse (String.ofList t) with
    | .ok k => .ok k
    | .error fault => .error (.error 400 fault.message)

/-- The slot index that a segment names; it is a word of 64 bits. -/
def readSlot (segment : List Char) : Except Response Nat :=
  match (Target.decodeSegment? segment).bind (Text.Numeral.read? (UInt64.size - 1)) with
  | some index => .ok index
  | none => .error (.refusal 400)

/-! ### Answers -/

def refused (fault : Fault) : Response :=
  match fault with
  | .registryFull _ => .error 503 fault.message
  | .unknownKey _ => .error 404 fault.message
  | _ => .error 400 fault.message

def notRegistered : Response :=
  .error 404 "key not registered"

def getKey (k : Key) (m : Monitor) : Response :=
  match m.stats? k with
  | some s => .ok 200 (Stats.toJson s)
  | none => notRegistered

def registerKey (k : Key) (m : Monitor) : Response × Monitor :=
  match m.register k with
  | (.ok true, m) => (.ok 201 k.toJson, m)
  | (.ok false, m) => (.ok 200 k.toJson, m)
  | (.error fault, m) => (refused fault, m)

def unregisterKey (k : Key) (m : Monitor) : Response × Monitor :=
  match m.unregister k with
  | (true, m) => (.ok 200 (.ofText "deleted"), m)
  | (false, m) => (notRegistered, m)

def clearGate (k : Key) (m : Monitor) : Response × Monitor :=
  match m.clearGate k with
  | (.ok held, m) => (.ok 200 (.object [("key", k.toJson), ("was_held", .bool held)]), m)
  | (.error fault, m) => (refused fault, m)

def putThresholds (b : Bounds) (m : Monitor) : Response × Monitor :=
  match m.store b with
  | .ok m => (.ok 200 b.toJson, m)
  | .error fault => (refused fault, m)

def putSlot (index : Nat) (value : UInt32) (m : Monitor) : Response × Monitor :=
  match m.writeSlot index value with
  | .ok m => (.ok 200 m.thresholds.toJson, m)
  | .error fault => (refused fault, m)

/-- Hand a batch of events to the monitor and gather the signals they fire. -/
def observeAll (worker : Nat) : List Event → Monitor → List Signal × Monitor
  | [], m => ([], m)
  | e :: rest, m =>
    let (fired, m) := m.observe worker (.event e)
    let (signals, m) := observeAll worker rest m
    ((fired.map fun d => ⟨e.key, d, none⟩).toList ++ signals, m)

def postEvents (worker : Nat) (events : List Event) (m : Monitor) : Response × Monitor :=
  let (signals, m) := observeAll worker events m
  (.ok 200 (.object [("received", .number events.length),
    ("signals", .array (signals.map Signal.toJson))]), m)

/-! ### The surface -/

/-- Answer with what `f` does to the monitor for a part of the request that must be read first. -/
def withPart (part : Except Response α) (f : α → Monitor → Response × Monitor) (m : Monitor) :
    Response × Monitor :=
  match part with
  | .ok a => f a m
  | .error response => (response, m)

/-- Serve a method of a resource. -/
def serve (worker : Nat) (r : Request) (resource : Resource) (method : Method) (m : Monitor) :
    Response × Monitor :=
  match resource, method with
  | .keys, .get => (.ok 200 (.array (m.allStats.map Stats.toJson)), m)
  | .key k, .get => withPart (readKey k) (fun k m => (getKey k m, m)) m
  | .key k, .post => withPart (readKey k) registerKey m
  | .key k, .delete => withPart (readKey k) unregisterKey m
  | .gate k, .delete => withPart (readKey k) clearGate m
  | .thresholds, .get => (.ok 200 m.thresholds.toJson, m)
  | .thresholds, .put => withPart (r.read Wire.bounds) putThresholds m
  | .slot i, .put =>
    withPart (readSlot i) (fun i => withPart (r.read Wire.slotValue) (putSlot i)) m
  | .events, .post => withPart (r.read (.list Wire.event)) (postEvents worker) m
  | .stats, .get => (.ok 200 m.metrics.toJson, m)
  | .metrics, .get => (⟨200, [], .exposition m.exposition⟩, m)
  | resource, _ => (⟨405, resource.methods, .empty⟩, m)

/-- Answer a request. HEAD is answered as GET is, without the body. -/
def handle (worker : Nat) (r : Request) (m : Monitor) : Response × Monitor :=
  match Resource.ofPath? r.path with
  | none => (⟨404, [], .empty⟩, m)
  | some resource =>
    if r.method = .head then
      let (response, m) := serve worker r resource .get m
      (response.withoutBody, m)
    else serve worker r resource r.method m

end ScaleWatch.Http
