/-
  SingleFlight.Settings — when a cached value is refetched, and how fetches are spaced.

  `Freshness` says when a value is due again: at a fixed age, and on a set of
  signals.  `Pacing` says how far apart fetches start.
-/
import SingleFlight.Time
import SingleFlight.Signal

namespace SingleFlight

/-! ## §1. Freshness. -/

/-- When a held value is due for a new fetch. -/
structure Freshness where
  /-- The age at which a value is due. -/
  interval : Duration
  /-- The signals that make it due at once, each listed once. -/
  triggers : List Signal
  deriving Repr

namespace Freshness

/-- Due at the age `interval` and on each of `signals`. -/
def of (interval : Duration) (signals : List Signal) : Freshness where
  interval := interval
  triggers := signals.eraseDups

/-- Due by age alone. -/
def periodic (interval : Duration) : Freshness := of interval []

/-- Due by age and whenever a user logs in. -/
def periodicAndLogin (interval : Duration) : Freshness := of interval [.loggedIn]

/-- Whether the signal makes a value due. -/
def triggersOn (f : Freshness) (s : Signal) : Bool := f.triggers.contains s

/-- Two policies are the same if they agree on the interval and on every signal. -/
def same (f g : Freshness) : Bool :=
  f.interval == g.interval && f.triggers.all g.triggersOn && g.triggers.all f.triggersOn

end Freshness

/-! ## §2. Pacing and settings. -/

/-- How far apart fetches start. -/
inductive Pacing where
  /-- A fetch starts as soon as it is asked for. -/
  | unpaced
  /-- A fetch asked for within `window` of the previous start waits out the rest of it. -/
  | spaced (window : Duration)
  deriving DecidableEq, Repr, Inhabited

/-- The settings of one cached value. -/
structure Settings where
  freshness : Freshness
  pacing : Pacing := .unpaced
  deriving Repr

namespace Settings

/-- Two settings are the same if they agree on freshness and pacing. -/
def same (a b : Settings) : Bool := a.freshness.same b.freshness && a.pacing == b.pacing

end Settings

end SingleFlight
