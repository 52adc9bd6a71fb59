/-
  SingleFlight.Source — where fetched values come from.

  A source is called anew for every attempt and knows which call it is.  A
  one-shot source makes one production per call, a continuous one offers a
  sequence of them.  A production takes a while and then comes out in some
  way, which may hang on the surroundings `ε` at that moment (a remote that is
  up or down) and on the time.
-/
import SingleFlight.Time

namespace SingleFlight

variable (ε V : Type)

/-- How a production came out. -/
inductive Outcome where
  /-- It gave a value. -/
  | value (v : V)
  /-- It gave an error with this reason. -/
  | failed (reason : String)
  /-- It crashed. -/
  | crashed
  /-- It gave a value that cannot be copied: whoever tries dies. -/
  | uncopyable
  deriving DecidableEq, Repr, Inhabited

/-- One result in the making: ready after `delay`, and then as `outcome` says. -/
structure Production where
  delay : Duration
  outcome : ε → Instant → Outcome V

/-- What a continuous source says when it is asked for its next item. -/
inductive Offer where
  /-- An item is on its way. -/
  | item (p : Production ε V)
  /-- There are no more items. -/
  | done
  /-- It does not answer, ever. -/
  | never

/-- The calls of a source, numbered from 1; none stands for a call that crashes at once. -/
inductive Shape where
  /-- One production per call. -/
  | oneShot (call : Nat → Option (Production ε V))
  /-- A sequence of offers per call, items numbered from 0. -/
  | continuous (call : Nat → Option (Nat → Offer ε V))

/-- A source of values, and the name of its owner if it stops working when that owner is gone. -/
structure Source where
  shape : Shape ε V
  owner : Option String := none

variable {ε V}

namespace Source

/-- Whether each call offers a sequence of values. -/
def isContinuous (s : Source ε V) : Bool :=
  match s.shape with
  | .oneShot _ => false
  | .continuous _ => true

end Source

/-- The fetch a value came from: the attempt, and the place among its items. -/
structure Origin where
  attempt : Nat
  item : Nat
  deriving DecidableEq, Repr, Inhabited

/-- A value together with its origin. -/
structure Sourced (V : Type) where
  value : V
  origin : Origin
  deriving DecidableEq, Repr, Inhabited

end SingleFlight
