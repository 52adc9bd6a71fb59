/-
  SingleFlight.Simulation.Session — a program that uses one cached value, step by step.

  A session gives names to readers and look-outs, performs one action at a
  time, lets everything settle and then looks at what there is to see.  All
  that happens in the world happens through its moves.
-/
import SingleFlight.Completion
import SingleFlight.Simulation.Script
import SingleFlight.World.Schedule

namespace SingleFlight.Simulation

/-! ## §1. Actions, results and what can be seen. -/

/-- A kind of stream object. -/
inductive StreamKind where
  | values (reading : Reading)
  | phases
  deriving DecidableEq, Repr, Inhabited

/-- One action of the program. -/
inductive Action where
  | bind (source : Source Unit Scalar)
  | reads (names : List (String × Reading))
  | cancel (name : String)
  | openStream (name : String) (kind : StreamKind)
  | poll (name : String)
  | follow (name : String)
  | dropStream (name : String)
  | invalidate
  | subscribe
  | poke
  | flush
  | observe (s : Signal)
  | success
  | publish (signals : List Signal)
  | closeBus
  | dropOwner
  | dropCache
  | takeNotices
  | dropNotices
  | startRefresher
  | stopRefresher
  | isRefresherFinished
  | sleep (d : Duration)
  | jump (d : Duration)

/-- Whom a published signal reached. -/
inductive Reach where
  | receivers (n : Nat)
  | nobody
  | noBus
  deriving DecidableEq, Repr, Inhabited

/-- The result of an action. -/
inductive Result where
  | bound
  | failed (failure : Failure)
  | item (i : Item Scalar)
  | phase (shown : String)
  | pending
  | noSuchStream
  | truth (b : Bool)
  | unknown
  | reached (reach : List Reach)
  | notices (ns : List Notice)
  deriving DecidableEq, Repr, Inhabited

/-- What the holder of the cache sees. -/
structure View where
  phase : String
  held : Option Scalar
  counters : Counters
  refreshed : Bool
  deriving DecidableEq, Repr

/-- What there is to see after an action. -/
structure Snapshot where
  result : Option Result
  now : Instant
  /-- None once the cache was let go. -/
  view : Option View
  due : Bool
  deadline : Deadline
  /-- How often a source was called. -/
  calls : Nat
  /-- When it was called since the last snapshot. -/
  started : List Instant
  produced : Nat
  /-- What tasks took since the last snapshot, by time and name. -/
  done : List (Completion (Item Scalar))
  deriving Repr

/-- A program at work on one cached value. -/
structure Session where
  world : World Unit Scalar
  isBare : Bool
  /-- The stream objects by name, newest first. -/
  streams : List (String × StreamKind × Nat) := []
  /-- The names of the readers that run as tasks, newest first. -/
  tasks : List (Nat × String) := []

namespace Session

/-! ## §2. Beginning. -/

/-- A session at its beginning. -/
def start (settings : Settings) (bus : Option Nat) (isBare : Bool) : Session where
  world :=
    (if isBare then World.bare settings (bus.map Bus.new) ()
      else World.selfRefreshing settings (bus.map Bus.new) ()).settle
  isBare := isBare

/-! ## §3. Single actions. -/

/-- Make a move. -/
def move (s : Session) (m : Move Unit Scalar) : Session := { s with world := s.world.apply m }

/-- Start a reading task. -/
def startRead (s : Session) (name : String) (reading : Reading) : Session :=
  if s.world.hasHandle then
    { s.move (.openReader reading .read) with tasks := (s.world.nextKey, name) :: s.tasks }
  else s

/-- Drop the newest task of this name. -/
def cancel (s : Session) (name : String) : Session :=
  match s.tasks.find? (·.2 == name) with
  | some (key, _) => s.move (.dropReader key)
  | none => s

/-- Forget a stream object; what it holds is dropped. -/
def dropStream (s : Session) (name : String) : Session :=
  match s.streams.lookup name with
  | none => s
  | some (kind, key) =>
    { s.move (match kind with | .values _ => .dropReader key | .phases => .dropLookout key) with
      streams := s.streams.filter (·.1 != name) }

/-- Create a stream object; one of the same name is dropped. -/
def openStream (s : Session) (name : String) (kind : StreamKind) : Session :=
  if s.world.hasHandle then
    let key := s.world.nextKey
    let opened := s.move (match kind with
      | .values reading => .openReader reading .polled
      | .phases => .openLookout)
    { opened.dropStream name with
      streams := (name, kind, key) :: (opened.dropStream name).streams }
  else s

/-- Hand a stream of values over to a task. -/
def follow (s : Session) (name : String) : Session :=
  match s.streams.lookup name with
  | some (.values _, key) =>
    { s.move (.follow key) with
      streams := s.streams.filter (·.1 != name)
      tasks := (key, name) :: s.tasks }
  | _ => s

/-- Ask a stream object for its next item. -/
def poll (s : Session) (name : String) : Session × Result :=
  match s.streams.lookup name with
  | none => (s, .noSuchStream)
  | some (.values _, key) =>
    let (world, item) := World.pollReader World.patience key s.world
    ({ s with world }, (item.map Result.item).getD .pending)
  | some (.phases, key) =>
    match s.world.lookouts.find? (·.key == key) with
    | none => (s, .noSuchStream)
    | some l =>
      (s.move (.pollLookout key), match s.world.sight l with
        | .phase p => .phase (p.describe (·.value.shown))
        | .nothing => .pending
        | .finished => .item .finished)

/-- Publish signals one after another. -/
def publish (s : Session) : List Signal → Session × List Reach
  | [] => (s, [])
  | signal :: rest =>
    let reach := match s.world.bus with
      | none => Reach.noBus
      | some bus =>
        if bus.isOpen then
          match (bus.send signal).2 with
          | some n => .receivers n
          | none => .nobody
        else .noBus
    let (last, reaches) := publish (s.move (.publish signal)) rest
    (last, reach :: reaches)

/-- What a bound source gives. -/
def bind (s : Session) (source : Source Unit Scalar) : Session × Option Result :=
  if s.world.hasHandle then
    (s.move (.bind source), match s.world.cache.dispatcher.bind source with
      | .ok _ => some .bound
      | .error failure => some (.failed failure))
  else (s, none)

/-- An action before anything settles, and its result. -/
def act (s : Session) : Action → Session × Option Result
  | .bind source => s.bind source
  | .reads names => (names.foldl (fun s (name, reading) => s.startRead name reading) s, none)
  | .cancel name => (s.cancel name, none)
  | .openStream name kind => (s.openStream name kind, none)
  | .poll name => (s.poll name).map id some
  | .follow name => (s.follow name, none)
  | .dropStream name => (s.dropStream name, none)
  | .invalidate => (s.move .invalidate, none)
  | .subscribe => (if s.isBare then s.move .subscribe else s, none)
  | .poke => (if s.isBare then s.move .poke else s, none)
  | .flush => (s.move .flush, none)
  | .observe signal =>
    (s.move (.observe signal), some (.truth (s.world.cache.staleness.observe signal).2))
  | .success => (s.move .recordSuccess, none)
  | .publish signals => (s.publish signals).map id (some ∘ .reached)
  | .closeBus => (s.move .closeBus, none)
  | .dropOwner => (s.move .dropOwner, none)
  | .dropCache => (s.move .dropHandle, none)
  | .takeNotices =>
    (s.move .takeNotices,
      some (.notices (if s.world.hasSpareEnd then s.world.cache.staleness.take.2 else [])))
  | .dropNotices => (s.move .dropNotices, none)
  | .startRefresher => (s.move .startRefresher, none)
  | .stopRefresher =>
    if s.isBare && s.world.refresher != .idle then (s.move .stopRefresher, some (.truth true))
    else (s, none)
  | .isRefresherFinished =>
    (s, some (if s.isBare && s.world.refresher != .idle then .truth !s.world.refresher.isRunning
      else .unknown))
  | .sleep d => ({ s with world := s.world.sleepFor d }, none)
  | .jump d => ({ s with world := s.world.jumpBy d }, none)

/-! ## §4. Looking. -/

/-- What the holder of the cache sees. -/
def view (s : Session) : Option View :=
  if s.world.hasHandle then
    some {
      phase := s.world.cache.cell.phase.describe (·.value.shown)
      held := s.world.cache.peek
      counters := s.world.cache.cell.counters
      refreshed := s.world.cache.staleness.lastSuccess.isSome }
  else none

/-- The newest entries of a log, oldest first. -/
def since {α : Type} (before : Nat) (log : List α) : List α :=
  (log.take (log.length - before)).reverse

/-- The items that tasks took since a number of deliveries, by time and name. -/
def completions (s : Session) (before : Nat) : List (Completion (Item Scalar)) :=
  Completion.inOrder <| (since before s.world.deliveries).filterMap fun d =>
    (s.tasks.lookup d.key).map fun name => ⟨name, d.time, d.item⟩

/-- What there is to see, after `calls` calls and `deliveries` deliveries already seen. -/
def snapshot (s : Session) (result : Option Result) (calls deliveries : Nat) : Snapshot where
  result := result
  now := s.world.now
  view := s.view
  due := s.world.cache.staleness.isDue s.world.now
  deadline := s.world.cache.staleness.deadline
  calls := s.world.calls.length
  started := (since calls s.world.calls).map (·.2)
  produced := s.world.produced
  done := s.completions deliveries

/-- Perform an action, let everything settle, and look. -/
def perform (s : Session) (a : Action) : Session × Snapshot :=
  let (acted, result) := s.act a
  let settled := { acted with world := acted.world.settle }
  (settled, settled.snapshot result s.world.calls.length s.world.deliveries.length)

/-- Perform actions one after another. -/
def performAll (s : Session) : List Action → List Snapshot
  | [] => []
  | a :: rest =>
    let (next, shot) := s.perform a
    shot :: next.performAll rest

/-- All there is to see of a program: at its beginning and after each action. -/
def snapshots (settings : Settings) (bus : Option Nat) (isBare : Bool) (actions : List Action) :
    List Snapshot :=
  let s := start settings bus isBare
  s.snapshot none 0 0 :: s.performAll actions

end Session

end SingleFlight.Simulation
