/-
  SingleFlight.Service.Server — the service: a cached quote in front of a remote, and its endpoints.

  Most requests are answered at once.  A request for a quote starts a read and
  is answered when that ends.  After each request everything settles, so the
  answers come in the order in which they are ready.
-/
import SingleFlight.Completion
import SingleFlight.Service.Config
import SingleFlight.Service.Request
import SingleFlight.Service.Response
import SingleFlight.Service.Route
import SingleFlight.World.Schedule

namespace SingleFlight.Service

/-- How the parts of the service hang together. -/
inductive Wiring where
  /-- The cache fetches from the remote, and hears of events. -/
  | whole
  /-- The remote that the cache fetches from is gone. -/
  | orphaned
  /-- The cache has no source, and nobody hears of events. -/
  | unbound
  deriving DecidableEq, Repr, Inhabited

/-- A request that waits for its quote. -/
structure Waiting where
  name : String
  sendsBody : Bool
  deriving DecidableEq, Repr, Inhabited

/-- The answer to a request; none stands for a request that crashed. -/
abbrev Answered := Completion (Option Response)

/-- The service: the world of its cached quote, and the requests that wait, by their readers. -/
structure Server where
  world : World Bool (Quote Instant)
  waiting : List (Nat × Waiting) := []

namespace Server

/-! ## §1. Beginning. -/

/-- How many events the bus holds. -/
def busCapacity : Nat := 16

/-- The world of the cached quote. -/
def initialWorld (config : Config) (wiring : Wiring) : World Bool (Quote Instant) :=
  let bus := if wiring = .unbound then Bus.unheard busCapacity else Bus.new busCapacity
  let world := World.selfRefreshing config.settings (some bus) false
  match wiring with
  | .whole => world.apply (.bind (remoteSource config.latency))
  | .orphaned => (world.apply (.bind (remoteSource config.latency))).apply .dropOwner
  | .unbound => world

/-- A service at its beginning. -/
def start (config : Config) (wiring : Wiring) : Server where
  world := (initialWorld config wiring).settle

/-! ## §2. Endpoints. -/

/-- What there is to know about the cache. -/
def diagnostics (s : Server) : Diagnostics Instant where
  phase := s.world.cache.cell.phase.map Sourced.value
  lastRefreshed := s.world.cache.staleness.lastSuccess
  counters := s.world.cache.cell.counters
  remoteFetches := s.world.calls.length

/-- Make a move in the world. -/
def move (s : Server) (m : Move Bool (Quote Instant)) : Server := { s with world := s.world.apply m }

/-- Start a read for a request. -/
def startRead (s : Server) (name : String) (sendsBody : Bool) (reading : Reading) : Server :=
  { s.move (.openReader reading .read) with
    waiting := (s.world.nextKey, ⟨name, sendsBody⟩) :: s.waiting }

/-- The response to a body that cannot be read. -/
def faultResponse : Json.Fault → Response
  | .malformed => ⟨400, none⟩
  | .mismatch => ⟨422, none⟩

/-- How many octets a body may have that is read. -/
def bodyLimit : Nat := 2097152

/-- Read the body of a request, which must declare it to be JSON and must not be too long. -/
def readBody {α : Type} (field : Json.Field α) (r : Request) : Except Response α :=
  if r.declaresJson then
    if r.body.length ≤ bodyLimit then (field.readFront r.body).mapError faultResponse
    else .error ⟨413, none⟩
  else .error ⟨415, none⟩

/-- Publish the event that a request asks for. -/
def publish (s : Server) (r : EventRequest) : Server × Response :=
  match r.refusal? with
  | some message => (s, ⟨400, some (errorDocument message)⟩)
  | none =>
    (s.move (.publish r.signal), .ok (ackDocument ("Event '" ++ r.signal.name ++ "' published")))

/-- Make the remote fail or recover. -/
def setRemote (s : Server) (r : RemoteRequest) : Server × Response :=
  (s.move (.surround r.isFailing),
    .ok (ackDocument (if r.isFailing then "Remote now failing" else "Remote healthy")))

/-- What an endpoint does, and its response if it has one at once.  Times are shown by `shown`. -/
def serve (s : Server) (shown : Instant → String) (name : String) (r : Request) (sendsBody : Bool) :
    Endpoint → Server × Option Response
  | .value => (s.startRead name sendsBody .once, none)
  | .refresh => (s.startRead name sendsBody .anew, none)
  | .invalidate => (s.move .invalidate, some (.ok (ackDocument "Quote invalidated")))
  | .events =>
    match readBody EventRequest.field r with
    | .error response => (s, some response)
    | .ok request => (s.publish request).map id some
  | .state => (s, some (.ok (s.diagnostics.document shown)))
  | .remote =>
    match readBody RemoteRequest.field r with
    | .error response => (s, some response)
    | .ok request => (s.setRemote request).map id some
  | .health => (s, some (.ok (healthDocument (shown s.world.now))))

/-- Take in a request; the response is there at once, or the request waits. -/
def accept (s : Server) (shown : Instant → String) (name : String) (r : Request) :
    Server × Option Response :=
  match r.route with
  | .preflight => (s, some ⟨200, none⟩)
  | .unknownPath => (s, some ⟨404, none⟩)
  | .wrongMethod => (s, some ⟨405, none⟩)
  | .endpoint e sendsBody =>
    (s.serve shown name r sendsBody e).map id fun response? =>
      response?.map fun response => if sendsBody then response else response.withoutBody

/-! ## §3. Answers. -/

/-- The response that follows from the end of a read. -/
def responseTo (shown : Instant → String) (d : Delivery (Quote Instant)) : Option Response :=
  match d.item with
  | .value content => some (.ok (valueDocument shown content.value d.lastSuccess))
  | .failed failure => some (failureResponse failure)
  | .finished | .crashed => none

/-- The answer that follows from the end of a read, if a request waits for it. -/
def answerTo (s : Server) (shown : Instant → String) (d : Delivery (Quote Instant)) :
    Option Answered :=
  (s.waiting.lookup d.key).map fun w =>
    ⟨w.name, d.time, (responseTo shown d).map fun response =>
      if w.sendsBody then response else response.withoutBody⟩

/-- The answers to waiting requests, after `before` deliveries already seen, oldest first. -/
def answersSince (s : Server) (shown : Instant → String) (before : Nat) : List Answered :=
  ((s.world.deliveries.take (s.world.deliveries.length - before)).reverse).filterMap
    (s.answerTo shown)

/-- Take in a request and let everything settle; these requests are answered by then. -/
def request (s : Server) (shown : Instant → String) (name : String) (r : Request) :
    Server × List Answered :=
  let (accepted, response?) := s.accept shown name r
  let settled := { accepted with world := accepted.world.settle }
  let immediate := response?.toList.map fun response => ⟨name, s.world.now, some response⟩
  (settled, Completion.inOrder (immediate ++ settled.answersSince shown s.world.deliveries.length))

/-- Let time pass; these requests are answered meanwhile. -/
def sleep (s : Server) (shown : Instant → String) (d : Duration) : Server × List Answered :=
  let slept := { s with world := s.world.sleepFor d }
  (slept, Completion.inOrder (slept.answersSince shown s.world.deliveries.length))

end Server

end SingleFlight.Service
