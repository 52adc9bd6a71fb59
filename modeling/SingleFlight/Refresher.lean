/-
  SingleFlight.Refresher — the background task that keeps one cached value fresh.

  The refresher takes notices from the book on staleness and signals from the
  bus, and wakes the readers once for each deadline.  In between it arms
  itself for the next deadline it has not yet woken anybody for; if the clock
  cannot name that deadline, the refresher dies.
-/
import SingleFlight.Bus
import SingleFlight.Cache

namespace SingleFlight

/-- What the refresher can react to. -/
inductive Cue where
  /-- A notice from the book on staleness. -/
  | notice
  /-- Something on the bus. -/
  | signal
  /-- The armed deadline. -/
  | timer
  deriving DecidableEq, Repr, Inhabited

/-- The background task of one cached value. -/
inductive Refresher where
  /-- Never started. -/
  | idle
  /-- About to compute its next deadline. -/
  | arming (wokenFor : Option Instant)
  /-- Waiting, at most until the deadline. -/
  | armed (wokenFor deadline : Option Instant)
  /-- Ended. -/
  | stopped
  deriving DecidableEq, Repr, Inhabited

namespace Refresher

/-- Whether the task was started and has not ended. -/
def isRunning : Refresher → Bool
  | arming _ | armed .. => true
  | idle | stopped => false

/-- The instant the task sleeps until, if it sleeps. -/
def timer? : Refresher → Option Instant
  | armed _ deadline => deadline
  | _ => none

/-- The state after computing the next deadline: one already woken for is left out. -/
def arm (wokenFor : Option Instant) : Deadline → Refresher
  | .unset => armed wokenFor none
  | .due t => armed wokenFor (if wokenFor = some t then none else some t)
  | .overflow => stopped

/-- What a notice does to the cache. -/
def heed {ε V : Type} (c : Cache ε V) : Notice → Cache ε V
  | .flush => c.invalidate
  | .refresh => c.poke
  | .reschedule => c

/-- What the bus does to the cache. -/
def hear {ε V : Type} (c : Cache ε V) : Received → Cache ε V
  | .signal s => { c with staleness := (c.staleness.observe s).1 }
  | .lagged _ => c.poke
  | .closed => c

end Refresher

end SingleFlight
