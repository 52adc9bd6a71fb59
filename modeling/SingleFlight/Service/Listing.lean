/-
  SingleFlight.Service.Listing — signals in a fixed order.

  Signals are listed by their JSON texts, octet by octet, which is the order
  of the code points in them.
-/
import SingleFlight.Json.Quoted
import SingleFlight.Settings

namespace SingleFlight.Service

/-- The JSON text of a signal. -/
def signalText : Signal → String
  | .loggedIn => Json.quoted "LoggedIn"
  | .foreground => Json.quoted "EnteredForeground"
  | .custom name => "\x7b" ++ Json.quoted "custom" ++ ":" ++ Json.quoted name ++ "\x7d"

/-- Put a signal in front of the first with a greater text. -/
def insertSignal (s : Signal) : List Signal → List Signal
  | [] => [s]
  | t :: rest => if signalText s < signalText t then s :: t :: rest else t :: insertSignal s rest

/-- The signals that make a value due, in their fixed order. -/
def listTriggers (f : Freshness) : List Signal := f.triggers.foldr insertSignal []

end SingleFlight.Service
