/-
  SingleFlight.Counters — what happened to one cached value, counted.
-/
import SingleFlight.Numeric.Binary64

namespace SingleFlight

/-- Counts of what happened to one cached value. -/
structure Counters where
  /-- Attempts launched. -/
  fetches : Nat := 0
  /-- Values accepted from attempts. -/
  successes : Nat := 0
  /-- Failures accepted from attempts. -/
  failures : Nat := 0
  /-- Reads that joined an attempt already on its way. -/
  coalesced : Nat := 0
  /-- Reads answered with the held value. -/
  deliveries : Nat := 0
  /-- Times the value was thrown away. -/
  invalidations : Nat := 0
  deriving DecidableEq, Repr, Inhabited

namespace Counters

/-- The share of failures among all outcomes. -/
def failureRate (c : Counters) : Binary64 := .share c.failures (c.successes + c.failures)

/-- Count a launched attempt. -/
def countFetch (c : Counters) : Counters := { c with fetches := c.fetches + 1 }

/-- Count an accepted value. -/
def countSuccess (c : Counters) : Counters := { c with successes := c.successes + 1 }

/-- Count an accepted failure. -/
def countFailure (c : Counters) : Counters := { c with failures := c.failures + 1 }

/-- Count a read that joined an attempt. -/
def countCoalesced (c : Counters) : Counters := { c with coalesced := c.coalesced + 1 }

/-- Count a read answered with the held value. -/
def countDelivery (c : Counters) : Counters := { c with deliveries := c.deliveries + 1 }

/-- Count a value thrown away. -/
def countInvalidation (c : Counters) : Counters := { c with invalidations := c.invalidations + 1 }

end Counters

end SingleFlight
