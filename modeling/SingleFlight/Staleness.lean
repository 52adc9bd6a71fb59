/-
  SingleFlight.Staleness — the book about whether a value is due.

  It remembers the last success and the triggers that came since, and passes
  notices on to whoever refreshes the cache.  A value is due if nothing was
  ever fetched, if its age has reached the interval, or if a trigger is
  pending; a recorded success clears the triggers.
-/
import SingleFlight.Settings

namespace SingleFlight

/-- What the refresher is told. -/
inductive Notice where
  /-- Throw the value away. -/
  | flush
  /-- Let the live readers look again. -/
  | refresh
  /-- The deadline moved. -/
  | reschedule
  deriving DecidableEq, Repr, Inhabited

/-- When a held value turns stale by age. -/
inductive Deadline where
  /-- Never: nothing was fetched, or every value is stale at once. -/
  | unset
  /-- At this instant. -/
  | due (t : Instant)
  /-- At an instant that the clock cannot name. -/
  | overflow
  deriving DecidableEq, Repr, Inhabited

/-- The bookkeeping about one cached value's age and triggers. -/
structure Staleness where
  freshness : Freshness
  /-- When the last success was recorded for. -/
  lastSuccess : Option Instant := none
  /-- A trigger signal came since the last success. -/
  signalPending : Bool := false
  /-- A flush was asked for since the last success. -/
  flushPending : Bool := false
  /-- Notices that nobody has taken yet, oldest first. -/
  notices : List Notice := []
  /-- Somebody still takes notices. -/
  listening : Bool := true
  deriving Repr

namespace Staleness

/-- Leave a notice, if anybody listens. -/
def notify (s : Staleness) (n : Notice) : Staleness :=
  if s.listening then { s with notices := s.notices ++ [n] } else s

/-- Whether the value is due at `now`. -/
def isDue (s : Staleness) (now : Instant) : Bool :=
  s.signalPending || s.flushPending ||
    match s.lastSuccess with
    | none => true
    | some t => decide (s.freshness.interval ≤ now.age t)

/-- A fetch succeeded at `t`: pending triggers are settled and the deadline moves. -/
def recordSuccess (s : Staleness) (t : Instant) : Staleness :=
  { s with lastSuccess := some t, signalPending := false, flushPending := false }.notify .reschedule

/-- When the value turns stale by age alone. -/
def deadline (s : Staleness) : Deadline :=
  if s.freshness.interval = 0 then .unset
  else match s.lastSuccess with
    | none => .unset
    | some t => match t.later? s.freshness.interval with
      | some d => .due d
      | none => .overflow

/-- Make the value due and ask for it to be thrown away. -/
def forceFlush (s : Staleness) : Staleness :=
  { s with flushPending := true }.notify .flush

/-- Take in a signal; the answer says whether it made the value due. -/
def observe (s : Staleness) (signal : Signal) : Staleness × Bool :=
  if s.freshness.triggersOn signal then
    ({ s with signalPending := true }.notify .refresh, true)
  else (s, false)

/-- Take all waiting notices. -/
def take (s : Staleness) : Staleness × List Notice := ({ s with notices := [] }, s.notices)

/-- Nobody takes notices any more. -/
def deafen (s : Staleness) : Staleness := { s with notices := [], listening := false }

end Staleness

end SingleFlight
