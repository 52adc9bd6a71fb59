/-
  SingleFlight.Service.Quote — quotes, and the simulated remote they come from.

  The remote numbers the fetches in the order in which they start.  A fetch
  takes the latency of the remote, and whether it succeeds is decided at its
  end: a remote that is failing then gives an error.
-/
import SingleFlight.Completion
import SingleFlight.Source

namespace SingleFlight.Service

/-- A quote, fetched at a time of type `T`. -/
structure Quote (T : Type) where
  sequence : Nat
  fetchedAt : T
  deriving DecidableEq, Repr, Inhabited

/-- The error of a remote that is failing. -/
def outage (number : Nat) : String :=
  "remote quote service unavailable (request " ++ toString number ++ ")"

/-- How the fetch of this number comes out, at its end. -/
def fetchOutcome (number : Nat) (isFailing : Bool) (now : Instant) : Outcome (Quote Instant) :=
  if isFailing then .failed (outage number) else .value ⟨number, now⟩

/-- The name of the remote, as the owner of the source. -/
def remoteName : String := "cached_value::remote::RemoteQuotes"

/-- The remote as a source; it stops working when the remote is gone. -/
def remoteSource (latency : Duration) : Source Bool (Quote Instant) where
  shape := .oneShot fun number => some ⟨latency, fetchOutcome number⟩
  owner := some remoteName

/-! ## The remote by itself. -/

/-- A fetch on its way. -/
structure Errand where
  name : String
  number : Nat
  due : Instant
  deriving DecidableEq, Repr, Inhabited

/-- The remote with its fetches and its clock. -/
structure Remote where
  latency : Duration
  isFailing : Bool := false
  /-- How many fetches have started. -/
  count : Nat := 0
  now : Instant := 0
  /-- The fetches on their way, oldest first. -/
  errands : List Errand := []
  deriving DecidableEq, Repr, Inhabited

namespace Remote

/-- Start a fetch. -/
def start (r : Remote) (name : String) : Remote :=
  { r with
    count := r.count + 1
    errands := r.errands ++ [⟨name, r.count + 1, r.now + r.latency⟩] }

/-- Make the remote fail or recover. -/
def setFailing (r : Remote) (isFailing : Bool) : Remote := { r with isFailing }

/-- How a fetch comes out that ends now, exactly at its instant. -/
def conclude (r : Remote) (e : Errand) : Completion (Outcome (Quote Instant)) :=
  ⟨e.name, e.due, fetchOutcome e.number r.isFailing e.due⟩

/-- Let time pass, from the end of one fetch to the end of the next. -/
def pass (r : Remote) (d : Duration) : Remote × List (Completion (Outcome (Quote Instant))) :=
  let later := r.now + d
  ({ r with now := later, errands := r.errands.filter (later < ·.due) },
    (r.errands.filter (·.due ≤ later)).map r.conclude)

end Remote

end SingleFlight.Service
