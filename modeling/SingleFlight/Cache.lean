/-
  SingleFlight.Cache — the shared cell of one value and everything that changes it.

  `Cell` is what all readers look at; `Cache` joins it with the dispatcher and
  the book on staleness.  Each function below is one critical section: it runs
  to its end before any other does.  A section that changes the cell marks it
  by raising `version`, which is how waiting readers learn of it; one that
  leaves the mark alone has changed counters at most.
-/
import SingleFlight.Counters
import SingleFlight.Dispatcher
import SingleFlight.Phase
import SingleFlight.Staleness

namespace SingleFlight

/-- What all readers of one cached value look at. -/
structure Cell (V : Type) where
  phase : Phase (Sourced V) := .empty
  /-- Raised with every stored value. -/
  revision : Nat := 0
  counters : Counters := {}
  /-- Why the cell can no longer be used, once its bookkeeping broke. -/
  broken : Option String := none
  /-- Raised whenever waiting readers shall look again. -/
  version : Nat := 0
  deriving Repr

/-- One cached value: its cell, its book on staleness and its dispatcher. -/
structure Cache (ε V : Type) where
  cell : Cell V := {}
  staleness : Staleness
  dispatcher : Dispatcher ε V

/-- What a reader gets that has to be served by an attempt. -/
inductive Ticket where
  /-- The first answer of this attempt will be the reader's. -/
  | wait (attempt : Nat)
  /-- The read fails. -/
  | failed (failure : Failure)
  /-- The reader crashes. -/
  | crashed
  deriving DecidableEq, Repr, Inhabited

/-- What one look at the cache gave a reader. -/
inductive Access (V : Type) where
  /-- Nothing to hand out. -/
  | nothing
  /-- The held value. -/
  | served (content : Sourced V) (revision : Nat)
  /-- An attempt has to serve the reader. -/
  | ticket (t : Ticket)
  deriving DecidableEq, Repr, Inhabited

namespace Cell

variable {V : Type}

/-- Mark the cell, so that waiting readers look again. -/
def mark (c : Cell V) : Cell V := { c with version := c.version + 1 }

/-- Move to another phase and mark the cell. -/
def moveTo (c : Cell V) (phase : Phase (Sourced V)) : Cell V := { c with phase }.mark

/-- Apply a change to the counters. -/
def tally (c : Cell V) (f : Counters → Counters) : Cell V := { c with counters := f c.counters }

end Cell

namespace Cache

variable {ε V : Type}

/-- A cache that never fetched, with these settings. -/
def new (settings : Settings) : Cache ε V where
  staleness := { freshness := settings.freshness }
  dispatcher := { pacing := settings.pacing }

/-- Apply a change to the cell. -/
def withCell (c : Cache ε V) (f : Cell V → Cell V) : Cache ε V := { c with cell := f c.cell }

/-- The held value, if there is one. -/
def peek (c : Cache ε V) : Option V := c.cell.phase.value?.map Sourced.value

/-! ## §1. Interest and invalidation. -/

/-- Show interest: a value that was thrown away may be fetched again. -/
def subscribe (c : Cache ε V) : Cache ε V :=
  match c.cell.phase with
  | .flushed | .invalid false => c.withCell (·.moveTo (.invalid true))
  | _ => c

/-- Throw the value away.  A fetch on its way goes on for its waiters. -/
def invalidate (c : Cache ε V) : Cache ε V :=
  c.withCell fun cell => (cell.tally Counters.countInvalidation).moveTo .flushed

/-- Let waiting readers look again. -/
def poke (c : Cache ε V) : Cache ε V := c.withCell Cell.mark

/-! ## §2. Reading. -/

/-- Launch an attempt and wait on it. -/
def launch (c : Cache ε V) (now : Instant) : Cache ε V × Ticket :=
  match c.dispatcher.launch now with
  | .unbound => (c, .failed .unbound)
  | .overflow left => ({ c with dispatcher := left }, .crashed)
  | .started next number =>
    ({ c with dispatcher := next }.withCell fun cell =>
      (cell.tally Counters.countFetch).moveTo .calculating, .wait number)

/-- Wait on the attempt that owes its first answer. -/
def join (c : Cache ε V) : Cache ε V × Ticket :=
  match c.dispatcher.pending with
  | some number => (c.withCell (·.tally Counters.countCoalesced), .wait number)
  | none =>
    (c.withCell fun cell => { cell with broken := some Failure.lostFlight },
      .failed (.internal Failure.lostFlight))

/-- One look of a reader that already received the revision `delivered`. -/
def access (c : Cache ε V) (now : Instant) (delivered : Option Nat) : Cache ε V × Access V :=
  match c.cell.broken with
  | some fault => (c, .ticket (.failed (.internal fault)))
  | none =>
    match c.cell.phase with
    | .empty | .invalid true => (c.launch now).map id .ticket
    | .invalid false => (c, .nothing)
    | .calculating => c.join.map id .ticket
    | .flushed => (c.withCell (·.moveTo (.invalid false)), .nothing)
    | .holding (.concealed content) =>
      if c.staleness.isDue now then (c.launch now).map id .ticket
      else if delivered = some c.cell.revision then (c, .nothing)
      else (c.withCell (·.tally Counters.countDelivery), .served content c.cell.revision)
    | .holding (.exposed _) | .holding .absent => (c, .nothing)

/-- A read that does not take the held value: it joins the fetch on its way, or launches one. -/
def demand (c : Cache ε V) (now : Instant) : Cache ε V × Ticket :=
  match c.cell.broken with
  | some fault => (c, .failed (.internal fault))
  | none => if c.cell.phase.isCalculating then c.join else c.launch now

/-! ## §3. Reports. -/

/-- Whether a reported value may be stored: the first of an attempt only while the cell waits for
it, a later one unless the value was just thrown away. -/
def keeps (c : Cache ε V) (item : Nat) : Bool :=
  if item = 0 then c.cell.phase.isCalculating else !c.cell.phase.isFlushed

/-- Store a reported value. -/
def store (c : Cache ε V) (now : Instant) (content : Sourced V) : Cache ε V :=
  { c with staleness := c.staleness.recordSuccess now }.withCell fun cell =>
    { cell with revision := cell.revision + 1 }.moveTo (.holding (.concealed content))

/-- Take in the report of an attempt.  Only the newest attempt counts. -/
def take (c : Cache ε V) (now : Instant) (attempt item : Nat) (report : Report V) :
    Cache ε V × Verdict :=
  if c.dispatcher.latest ≠ attempt then (c, .superseded)
  else match report with
    | .ok content =>
      let counted := c.withCell (·.tally Counters.countSuccess)
      if c.keeps item then (counted.store now content, .stored (c.cell.revision + 1))
      else (counted.withCell (·.moveTo (.invalid false)), .discarded)
    | .error _ =>
      (c.withCell fun cell => (cell.tally Counters.countFailure).moveTo (.invalid false), .discarded)

end Cache

end SingleFlight
