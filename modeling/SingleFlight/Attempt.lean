/-
  SingleFlight.Attempt — one fetch on its way.

  An attempt waits out its delay, then its predecessor; it calls the source,
  waits for the production, reports the result to the cache and answers its
  waiters.  A continuous attempt goes on to its next item.  Between two phases
  anybody else may act, so each phase holds all that the attempt knows.
-/
import SingleFlight.Source
import SingleFlight.Failure

namespace SingleFlight

/-- A fetched value as its waiters get it. -/
structure Fetched (V : Type) where
  content : Sourced V
  /-- The revision it was stored under, if it was stored. -/
  revision : Option Nat
  deriving DecidableEq, Repr, Inhabited

/-- The answer of an attempt to everybody who waits on it. -/
abbrev Answer (V : Type) := Except Failure (Fetched V)

/-- What an attempt reports to the cache. -/
abbrev Report (V : Type) := Except Failure (Sourced V)

/-- How the cache took a report. -/
inductive Verdict where
  /-- Stored under this revision. -/
  | stored (revision : Nat)
  /-- Counted, but not stored. -/
  | discarded
  /-- Ignored: a newer attempt counts, or the cache is gone. -/
  | superseded
  deriving DecidableEq, Repr, Inhabited

namespace Verdict

/-- The revision a value was stored under. -/
def revision? : Verdict → Option Nat
  | stored r => some r
  | _ => none

end Verdict

variable (ε V : Type)

/-- How far an attempt has come. -/
inductive Attempt.Progress where
  /-- Launched, and not yet run. -/
  | launched
  /-- Held back by the pacing until this instant. -/
  | heldBack (resume : Instant)
  /-- Waiting for its predecessor to answer. -/
  | queued
  /-- About to ask for the next item. -/
  | asking
  /-- A production is on its way. -/
  | producing (due : Instant) (outcome : ε → Instant → Outcome V)
  /-- About to report to the cache. -/
  | reporting (report : Report V)
  /-- About to answer its waiters, and then to ask for another item or to end. -/
  | answering (answer : Answer V) (continues : Bool)
  /-- Waiting for an item that never comes. -/
  | stuck

/-- One fetch on its way. -/
structure Attempt where
  number : Nat
  /-- How long the pacing holds it back. -/
  delay : Duration
  /-- The attempt that must answer first. -/
  predecessor : Option Nat
  /-- The continuous attempt that ends when this one calls the source. -/
  supersedes : Option Nat
  /-- The offers of a continuous call, once made. -/
  offers : Option (Nat → Offer ε V) := none
  /-- The place of the current item. -/
  item : Nat := 0
  progress : Attempt.Progress ε V := .launched

variable {ε V}

namespace Attempt

/-- The instant the attempt sleeps until, if it sleeps. -/
def timer? (a : Attempt ε V) : Option Instant :=
  match a.progress with
  | .heldBack resume => some resume
  | .producing due _ => some due
  | _ => none

/-- The failure an attempt reports for a reason of its own. -/
def failure (a : Attempt ε V) (reason : String) : Failure := .fetchFailed a.number reason

/-- The value of the current item, with its origin. -/
def sourced (a : Attempt ε V) (v : V) : Sourced V := ⟨v, a.number, a.item⟩

/-- The answer that follows from a report and its verdict. -/
def answerOf (report : Report V) (verdict : Verdict) : Answer V :=
  report.map (fun content => ⟨content, verdict.revision?⟩)

/-- Whether an attempt goes on after a report: only with values, a sequence of them, and while it counts. -/
def goesOn (a : Attempt ε V) (report : Report V) (verdict : Verdict) : Bool :=
  report.isOk && a.offers.isSome && verdict != .superseded

end Attempt

end SingleFlight
