/-
  SingleFlight.Simulation.Script — sources that follow a script.

  A script lists what the calls of a source do; the last entry also serves all
  calls after it.  The surroundings play no part, and neither does the time.
-/
import SingleFlight.Failure
import SingleFlight.Simulation.Scalar
import SingleFlight.Source

namespace SingleFlight.Simulation

/-- How a scripted production comes out. -/
inductive Ending where
  /-- This value. -/
  | value (v : Scalar)
  /-- This number plus the number of the call. -/
  | callPlus (base : Int)
  /-- An error, explained by a context or not. -/
  | failed (root : String) (context : Option String)
  /-- A crash. -/
  | crash
  /-- A value that cannot be copied. -/
  | uncopyable
  deriving DecidableEq, Repr, Inhabited

/-- A scripted production. -/
structure Cut where
  delay : Duration := 0
  ending : Ending
  deriving DecidableEq, Repr, Inhabited

/-- What follows the listed items of a stream. -/
inductive Tail where
  /-- The end of the stream. -/
  | done
  /-- Nothing, ever. -/
  | never
  /-- Ascending numbers without end, each after the delay. -/
  | ticks (delay : Duration) (first : Int)
  deriving DecidableEq, Repr, Inhabited

/-- A scripted stream. -/
structure Reel where
  items : List Cut
  tail : Tail := .done
  deriving DecidableEq, Repr, Inhabited

/-- A script; none stands for a call that crashes at once. -/
inductive Script where
  | oneShot (entries : List (Option Cut))
  | continuous (entries : List (Option Reel))
  deriving DecidableEq, Repr, Inhabited

namespace Ending

/-- How the production comes out in the call of this number. -/
def outcome (call : Nat) : Ending → Outcome Scalar
  | value v => .value v
  | callPlus base => .value (.number (base + call))
  | failed root context => .failed (Failure.outermost root context.toList)
  | crash => .crashed
  | uncopyable => .uncopyable

end Ending

namespace Cut

/-- The production in the call of this number. -/
def production (call : Nat) (c : Cut) : Production Unit Scalar where
  delay := c.delay
  outcome := fun _ _ => c.ending.outcome call

end Cut

namespace Reel

/-- The offer at a place of the stream. -/
def offer (r : Reel) (call place : Nat) : Offer Unit Scalar :=
  match r.items[place]? with
  | some cut => .item (cut.production call)
  | none =>
    match r.tail with
    | .done => .done
    | .never => .never
    | .ticks delay first =>
      .item ⟨delay, fun _ _ => .value (.number (first + (place - r.items.length : Nat)))⟩

end Reel

namespace Script

/-- The entry for a call: its own, or the last one. -/
def entryFor {α : Type} (entries : List α) (call : Nat) : Option α :=
  entries[min call entries.length - 1]?

/-- The source that follows the script. -/
def source (owner : Option String) : Script → Source Unit Scalar
  | oneShot entries =>
    { shape := .oneShot fun call => (entryFor entries call).join.map (·.production call), owner }
  | continuous entries =>
    { shape := .continuous fun call => (entryFor entries call).join.map (·.offer call), owner }

end Script

end SingleFlight.Simulation
