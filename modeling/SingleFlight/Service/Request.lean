/-
  SingleFlight.Service.Request — the bodies of requests.
-/
import SingleFlight.Json.Record
import SingleFlight.Signal
import SingleFlight.Text.Blank

namespace SingleFlight.Service

/-- A request to publish an event. -/
structure EventRequest where
  event : String
  deriving DecidableEq, Repr, Inhabited

namespace EventRequest

/-- Why the request is refused, if it is: the name must not be blank. -/
def refusal? (r : EventRequest) : Option String :=
  if (Text.trim r.event).isEmpty then some "Event name cannot be empty" else none

/-- The event that the name stands for, without white space around it. -/
def signal (r : EventRequest) : Signal := .ofName (Text.trim r.event)

/-- The form of the request in JSON. -/
def field : Json.Field EventRequest where
  name := "event"
  read := fun bs => (Json.readString bs).map fun (s, rest) => (⟨s⟩, rest)

end EventRequest

/-- A request to make the remote fail or recover. -/
structure RemoteRequest where
  isFailing : Bool
  deriving DecidableEq, Repr, Inhabited

namespace RemoteRequest

/-- The form of the request in JSON. -/
def field : Json.Field RemoteRequest where
  name := "failing"
  read := fun bs => (Json.readBool bs).map fun (b, rest) => (⟨b⟩, rest)

end RemoteRequest

end SingleFlight.Service
