/-
  SingleFlight.Service.Response — the bodies of responses, and the status of a failure.

  Times are of any type `T` and shown by a function that the caller gives.
-/
import SingleFlight.Counters
import SingleFlight.Failure
import SingleFlight.Json.Document
import SingleFlight.Phase
import SingleFlight.Service.Quote

namespace SingleFlight.Service

open Json (Document)

/-- A response: its status, and its body if there is one in JSON. -/
structure Response where
  status : Nat
  body : Option Document := none
  deriving Repr, Inhabited

namespace Response

/-- A response that went well. -/
def ok (body : Document) : Response := ⟨200, some body⟩

/-- The same response without its body. -/
def withoutBody (r : Response) : Response := { r with body := none }

end Response

variable {T : Type}

/-- The document of a quote. -/
def quoteDocument (shown : T → String) (q : Quote T) : Document :=
  .object [("sequence", .count q.sequence), ("fetched_at", .text (shown q.fetchedAt))]

/-- A quote as it stands in the description of a phase. -/
def quoteText (shown : T → String) (q : Quote T) : String :=
  "Quote \x7b sequence: " ++ toString q.sequence ++ ", fetched_at: " ++ shown q.fetchedAt ++ " \x7d"

/-- The document of a time that may be missing. -/
def timeDocument (shown : T → String) (t : Option T) : Document :=
  .ofOption (fun t => .text (shown t)) t

/-- The answer to a read: the quote, and when one was last fetched. -/
def valueDocument (shown : T → String) (q : Quote T) (lastRefreshed : Option T) : Document :=
  .object [("quote", quoteDocument shown q), ("last_refreshed_at", timeDocument shown lastRefreshed)]

/-- The answer to a command. -/
def ackDocument (message : String) : Document := .object [("message", .text message)]

/-- The answer to a request that failed. -/
def errorDocument (message : String) : Document := .object [("error", .text message)]

/-- The answer of a healthy service. -/
def healthDocument (time : String) : Document :=
  .object [("status", .text "healthy"), ("timestamp", .text time)]

/-- The document of the counters and of the share of failures. -/
def countersDocument (c : Counters) : Document :=
  .object [
    ("fetches", .count c.fetches), ("successes", .count c.successes),
    ("failures", .count c.failures), ("coalesced", .count c.coalesced),
    ("deliveries", .count c.deliveries), ("invalidations", .count c.invalidations),
    ("failure_rate", .real c.failureRate)]

/-- The diagnostics of the service. -/
structure Diagnostics (T : Type) where
  phase : Phase (Quote T)
  lastRefreshed : Option T
  counters : Counters
  remoteFetches : Nat

namespace Diagnostics

/-- The answer to a question for diagnostics. -/
def document (shown : T → String) (d : Diagnostics T) : Document :=
  .object [
    ("state", .text (d.phase.describe (quoteText shown))),
    ("cached", .ofOption (quoteDocument shown) d.phase.value?),
    ("last_refreshed_at", timeDocument shown d.lastRefreshed),
    ("stats", countersDocument d.counters),
    ("remote_fetches", .count d.remoteFetches)]

end Diagnostics

/-- The status of a failure. -/
def failureStatus : Failure → Nat
  | .fetchFailed .. => 502
  | .ownerGone _ => 503
  | .unbound | .internal _ => 500

/-- The response to a failure. -/
def failureResponse (f : Failure) : Response := ⟨failureStatus f, some (errorDocument f.message)⟩

end SingleFlight.Service
