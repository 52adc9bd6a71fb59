/-
  SingleFlight.Service.Route — requests, and what they are for.

  Each endpoint has one path and one method; a `HEAD` request goes where a
  `GET` request goes.  A preflight is answered whatever its path.
-/
import SingleFlight.Service.MediaType

namespace SingleFlight.Service

/-- A request. -/
structure Request where
  method : String
  target : String
  headers : List (String × String) := []
  body : List UInt8 := []
  deriving DecidableEq, Repr, Inhabited

/-- What the service does. -/
inductive Endpoint where
  /-- Gives the quote, fetched if it is missing or due. -/
  | value
  /-- Fetches a quote. -/
  | refresh
  /-- Throws the quote away. -/
  | invalidate
  /-- Publishes an event. -/
  | events
  /-- Gives diagnostics. -/
  | state
  /-- Makes the remote fail or recover. -/
  | remote
  /-- Says that the service is well. -/
  | health
  deriving DecidableEq, Repr, Inhabited

namespace Endpoint

/-- All endpoints. -/
def all : List Endpoint := [value, refresh, invalidate, events, state, remote, health]

/-- The path of an endpoint. -/
def path : Endpoint → String
  | value => "/value"
  | refresh => "/refresh"
  | invalidate => "/invalidate"
  | events => "/events"
  | state => "/state"
  | remote => "/remote"
  | health => "/health"

/-- The method of an endpoint. -/
def method : Endpoint → String
  | value | state | health => "GET"
  | refresh | invalidate | events => "POST"
  | remote => "PUT"

end Endpoint

/-- Where a request leads. -/
inductive Route where
  /-- A question of a browser whether it may send another request. -/
  | preflight
  /-- No endpoint has this path. -/
  | unknownPath
  /-- The endpoint of this path has another method. -/
  | wrongMethod
  /-- An endpoint; the body of its answer is sent or not. -/
  | endpoint (e : Endpoint) (sendsBody : Bool)
  deriving DecidableEq, Repr, Inhabited

namespace Request

/-- The path of a request: its target without the authority in front and the query behind. -/
def path (r : Request) : String :=
  let cs := r.target.toList.takeWhile fun c => c != '?' && c != '#'
  let scheme := cs.takeWhile (· != ':')
  match cs.drop scheme.length with
  | ':' :: '/' :: '/' :: rest =>
    if scheme.contains '/' then String.ofList cs
    else match rest.dropWhile (· != '/') with
      | [] => "/"
      | path => String.ofList path
  | _ => String.ofList cs

/-- Where the request leads. -/
def route (r : Request) : Route :=
  if r.method = "OPTIONS" then .preflight
  else match Endpoint.all.find? (·.path == r.path) with
    | none => .unknownPath
    | some e =>
      if r.method = e.method then .endpoint e true
      else if r.method = "HEAD" ∧ e.method = "GET" then .endpoint e false
      else .wrongMethod

/-- The first header of this name, in letters of either case. -/
def header? (r : Request) (name : String) : Option String :=
  (r.headers.find? fun h => h.1.map Char.toLower == name).map (·.2)

/-- Whether the request declares its body to be JSON. -/
def declaresJson (r : Request) : Bool :=
  ((r.header? "content-type").bind MediaType.read?).any MediaType.isJson

end Request

end SingleFlight.Service
