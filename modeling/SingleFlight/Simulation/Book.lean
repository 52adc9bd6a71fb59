/-
  SingleFlight.Simulation.Book — the book on staleness by itself, under a clock.
-/
import SingleFlight.Staleness

namespace SingleFlight.Simulation

/-- Something done to the book. -/
inductive Entry where
  /-- Time passes. -/
  | advance (d : Duration)
  /-- A fetch succeeded just now. -/
  | success
  /-- A fetch succeeded some time ago. -/
  | successAgo (d : Duration)
  /-- A fetch will have succeeded in some time. -/
  | successAhead (d : Duration)
  | flush
  | observe (s : Signal)
  /-- The waiting notices are taken. -/
  | drain
  /-- Nobody takes notices any more. -/
  | deafen
  deriving DecidableEq, Repr, Inhabited

/-- What an entry gives back. -/
inductive EntryResult where
  | nothing
  | truth (b : Bool)
  | notices (ns : List Notice)
  deriving DecidableEq, Repr, Inhabited

/-- A book and its clock. -/
structure Book where
  now : Instant := 0
  staleness : Staleness
  deriving Repr

/-- What there is to see after an entry. -/
structure BookView where
  result : EntryResult
  due : Bool
  deadline : Deadline
  refreshed : Bool
  deriving DecidableEq, Repr

namespace Book

/-- A book in which nothing stands. -/
def new (freshness : Freshness) : Book where
  staleness := { freshness }

/-- Make an entry. -/
def enter (b : Book) : Entry → Book × EntryResult
  | .advance d => ({ b with now := b.now + d }, .nothing)
  | .success => ({ b with staleness := b.staleness.recordSuccess b.now }, .nothing)
  | .successAgo d => ({ b with staleness := b.staleness.recordSuccess (b.now - d) }, .nothing)
  | .successAhead d => ({ b with staleness := b.staleness.recordSuccess (b.now + d) }, .nothing)
  | .flush => ({ b with staleness := b.staleness.forceFlush }, .nothing)
  | .observe s =>
    let (staleness, accepted) := b.staleness.observe s
    ({ b with staleness }, .truth accepted)
  | .drain =>
    let (staleness, notices) := b.staleness.take
    ({ b with staleness }, .notices notices)
  | .deafen => ({ b with staleness := b.staleness.deafen }, .nothing)

/-- What there is to see. -/
def view (b : Book) (result : EntryResult) : BookView where
  result := result
  due := b.staleness.isDue b.now
  deadline := b.staleness.deadline
  refreshed := b.staleness.lastSuccess.isSome

/-- What there is to see after each of a list of entries. -/
def views (b : Book) : List Entry → List BookView
  | [] => []
  | e :: rest =>
    let (next, result) := b.enter e
    next.view result :: next.views rest

end Book

end SingleFlight.Simulation
