/-
  SingleFlight.Completion — things that were begun under a name and have ended at some time.

  Completions are told by time, at one time by name, and under one name in the
  order in which they happened.
-/
import SingleFlight.Time

namespace SingleFlight

/-- How something that was begun under a name has ended, and when. -/
structure Completion (α : Type) where
  name : String
  time : Instant
  outcome : α
  deriving DecidableEq, Repr, Inhabited

namespace Completion

variable {α : Type}

/-- Whether a completion is told before another, whatever the order in which they happened. -/
def precedes (a b : Completion α) : Bool :=
  a.time < b.time || (a.time == b.time && a.name < b.name)

/-- Put a completion in front of the first that it precedes. -/
def insert (a : Completion α) : List (Completion α) → List (Completion α)
  | [] => [a]
  | b :: rest => if a.precedes b then a :: b :: rest else b :: insert a rest

/-- Completions in the order in which they are told. -/
def inOrder (completions : List (Completion α)) : List (Completion α) :=
  completions.foldl (fun told a => insert a told) []

end Completion

end SingleFlight
