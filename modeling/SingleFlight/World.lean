/-
  SingleFlight.World — one cached value with all that acts on it.

  A world holds the cache, the attempts on their way (in the cache's
  dispatcher), the readers, the refresher, the bus and the clock.  Everything
  that happens is a `Move`: one critical section of one actor, one action of
  the program that owns the cache, or the passing of time.  `World.apply` is
  total; a move that nobody can make changes nothing.  A run is a list of
  moves, so a law of all runs holds for every way of interleaving the actors.

  Two things are taken for granted.  Timers are exact: whoever sleeps until an
  instant can go on at that instant, where a real timer may round it up to a
  whole millisecond.  And an attempt that is aborted stops at once, even if its
  task is running at that moment, where a real task goes on to its next wait.
-/
import SingleFlight.Reader
import SingleFlight.Refresher

namespace SingleFlight

/-! ## §1. The world. -/

/-- Who drives a reader. -/
inductive Role where
  /-- A task of its own, which ends with the first item. -/
  | read
  /-- A task of its own, which takes every item. -/
  | follow
  /-- The program, which asks for one item at a time. -/
  | polled
  deriving DecidableEq, Repr, Inhabited

/-- A reader in the world, known by its key. -/
structure Seat where
  key : Nat
  role : Role
  reader : Reader
  deriving DecidableEq, Repr, Inhabited

/-- A look-out for phases: it gives the phase whenever the cell was marked since it last did. -/
structure Lookout where
  key : Nat
  /-- The version of the cell when it last gave a phase. -/
  seen : Option Nat := none
  isOver : Bool := false
  deriving DecidableEq, Repr, Inhabited

/-- An item that a reader handed out. -/
structure Delivery (V : Type) where
  key : Nat
  time : Instant
  item : Item V
  /-- The last success on record at that moment. -/
  lastSuccess : Option Instant
  deriving Repr

/-- One cached value with all that acts on it. -/
structure World (ε V : Type) where
  now : Instant := 0
  cache : Cache ε V
  bus : Option Bus := none
  refresher : Refresher := .idle
  /-- The refresher and the reads are bound to the handle: when all are gone it ends. -/
  isTethered : Bool := true
  /-- The receiving end of the notices is still with the program. -/
  hasSpareEnd : Bool := false
  /-- The program still holds the cache. -/
  hasHandle : Bool := true
  /-- The owner of the source is still there. -/
  hasOwner : Bool := true
  surroundings : ε
  seats : List Seat := []
  lookouts : List Lookout := []
  /-- The key of the next reader or look-out. -/
  nextKey : Nat := 0
  /-- The calls of the source so far, newest first: which attempt, and when. -/
  calls : List (Nat × Instant) := []
  /-- How many productions came out so far. -/
  produced : Nat := 0
  /-- The items handed out so far, newest first. -/
  deliveries : List (Delivery V) := []

namespace World

variable {ε V : Type}

/-- A cached value that refreshes itself, fresh from the start. -/
def selfRefreshing (settings : Settings) (bus : Option Bus) (surroundings : ε) : World ε V where
  cache := .new settings
  bus := bus
  refresher := .arming none
  surroundings := surroundings

/-- The bare cell and its book on staleness, without a refresher. -/
def bare (settings : Settings) (bus : Option Bus) (surroundings : ε) : World ε V where
  cache := .new settings
  bus := bus
  isTethered := false
  hasSpareEnd := true
  surroundings := surroundings

/-- The reader of a key. -/
def seat? (w : World ε V) (key : Nat) : Option Seat := w.seats.find? (·.key == key)

/-- Somebody reads on behalf of a single result. -/
def hasReads (w : World ε V) : Bool := w.seats.any (·.role == .read)

/-- Whether the cache is still in being: somebody holds it. -/
def isCacheAlive (w : World ε V) : Bool :=
  w.hasHandle || w.refresher.isRunning || w.seats.any (·.reader.holdsCache)

/-- Apply a change to the cache. -/
def withCache (w : World ε V) (f : Cache ε V → Cache ε V) : World ε V :=
  { w with cache := f w.cache }

/-- Apply a change to the dispatcher. -/
def withDispatcher (w : World ε V) (f : Dispatcher ε V → Dispatcher ε V) : World ε V :=
  w.withCache fun c => { c with dispatcher := f c.dispatcher }

/-- Apply a change to the book on staleness. -/
def withStaleness (w : World ε V) (f : Staleness → Staleness) : World ε V :=
  w.withCache fun c => { c with staleness := f c.staleness }

/-! ## §2. The refresher. -/

/-- End the refresher: nobody takes notices or hears the bus any more. -/
def stopRefresher (w : World ε V) : World ε V :=
  if w.refresher.isRunning then
    { w.withStaleness Staleness.deafen with refresher := .stopped, bus := w.bus.map Bus.leave }
  else w

/-- Start the refresher, if the program still has the cache and the receiving end for it. -/
def startRefresher (w : World ε V) : World ε V :=
  if w.hasHandle && w.hasSpareEnd then { w with refresher := .arming none, hasSpareEnd := false } else w

/-- A tethered refresher ends when neither the handle nor a read is left. -/
def untether (w : World ε V) : World ε V :=
  if w.isTethered && !w.hasHandle && !w.hasReads then w.stopRefresher else w

/-- Compute the refresher's next deadline. -/
def armRefresher (w : World ε V) : World ε V :=
  match w.refresher with
  | .arming wokenFor =>
    match Refresher.arm wokenFor w.cache.staleness.deadline with
    | .stopped => w.stopRefresher
    | next => { w with refresher := next }
  | _ => w

/-- Whether the refresher, armed, can react to a cue. -/
def hasCue (w : World ε V) : Cue → Bool
  | .notice => !w.cache.staleness.notices.isEmpty
  | .signal => (w.bus.bind Bus.receive?).isSome
  | .timer => w.refresher.timer?.any (· ≤ w.now)

/-- React to a cue. -/
def react (w : World ε V) (cue : Cue) : World ε V :=
  match w.refresher with
  | .armed wokenFor deadline =>
    match cue with
    | .notice =>
      match w.cache.staleness.notices with
      | notice :: rest =>
        { (w.withStaleness ({ · with notices := rest })).withCache (Refresher.heed · notice) with
          refresher := .arming wokenFor }
      | [] => w
    | .signal =>
      match w.bus.bind Bus.receive? with
      | some (received, bus) =>
        { w.withCache (Refresher.hear · received) with
          bus := some (if received = .closed then bus.leave else bus)
          refresher := .arming wokenFor }
      | none => w
    | .timer =>
      if w.hasCue .timer then { w.withCache Cache.poke with refresher := .arming deadline } else w
  | _ => w

/-! ## §3. Attempts. -/

/-- Put a changed attempt in its place. -/
def advanceTo (w : World ε V) (a : Attempt ε V) (progress : Attempt.Progress ε V) : World ε V :=
  w.withDispatcher (·.update { a with progress })

/-- The source is called: note it. -/
def noteCall (w : World ε V) (a : Attempt ε V) : World ε V :=
  { w with calls := (a.number, w.now) :: w.calls }

/-- Abort the attempt that this one replaces, and call the source.  A source whose owner is gone is
not called, and the attempt fails. -/
def callSource (w : World ε V) (a : Attempt ε V) : World ε V :=
  let w := w.withDispatcher (·.dismiss a.supersedes)
  match w.cache.dispatcher.binding with
  | none => w.withDispatcher (·.lose a.number)
  | some source =>
    match if w.hasOwner then none else source.owner with
    | some owner => w.advanceTo a (.reporting (.error (.ownerGone owner)))
    | none =>
      let called := w.noteCall a
      let crashed := called.advanceTo a (.reporting (.error (a.failure Failure.crashReason)))
      match source.shape with
      | .oneShot call =>
        match call called.calls.length with
        | none => crashed
        | some p => called.advanceTo a (.producing (w.now + p.delay) p.outcome)
      | .continuous call =>
        match call called.calls.length with
        | none => crashed
        | some offers => called.advanceTo { a with offers := some offers } .asking

/-- Ask a continuous call for its next item. -/
def askNext (w : World ε V) (a : Attempt ε V) : World ε V :=
  match a.offers.map fun offers : Nat → Offer ε V => offers a.item with
  | some (.item p) => w.advanceTo a (.producing (w.now + p.delay) p.outcome)
  | some .never => w.advanceTo a .stuck
  | some .done | none =>
    if a.item = 0 then w.advanceTo a (.reporting (.error (a.failure Failure.emptyReason)))
    else w.withDispatcher (·.retire a.number)

/-- A production came out. -/
def produce (w : World ε V) (a : Attempt ε V) (outcome : ε → Instant → Outcome V) : World ε V :=
  let came := { w with produced := w.produced + 1 }
  match outcome w.surroundings w.now with
  | .value v => came.advanceTo a (.reporting (.ok (a.sourced v)))
  | .failed reason => came.advanceTo a (.reporting (.error (a.failure reason)))
  | .crashed => came.advanceTo a (.reporting (.error (a.failure Failure.crashReason)))
  | .uncopyable => came.withDispatcher (·.lose a.number)

/-- Report to the cache, if it is still in being. -/
def report (w : World ε V) (a : Attempt ε V) (result : Report V) : World ε V :=
  let (cache, verdict) :=
    if w.isCacheAlive then w.cache.take w.now a.number a.item result else (w.cache, .superseded)
  { w with cache }.advanceTo a
    (.answering (Attempt.answerOf result verdict) (a.goesOn result verdict))

/-- Answer the waiters, and go on to the next item or end. -/
def answer (w : World ε V) (a : Attempt ε V) (answer : Answer V) (continues : Bool) : World ε V :=
  let settled := w.withDispatcher (·.settle a.number answer)
  if continues then settled.advanceTo { a with item := a.item + 1 } .asking
  else settled.withDispatcher (·.retire a.number)

/-- Whether an attempt can take a step.  A timer lets it go on exactly at its instant. -/
def canStep (w : World ε V) (a : Attempt ε V) : Bool :=
  match a.progress with
  | .heldBack resume => resume ≤ w.now
  | .queued => a.predecessor.all w.cache.dispatcher.hasAnswered
  | .producing due _ => due ≤ w.now
  | .stuck => false
  | _ => true

/-- One step of an attempt. -/
def stepAttempt (w : World ε V) (a : Attempt ε V) : World ε V :=
  if w.canStep a then
    match a.progress with
    | .launched => w.advanceTo a (if a.delay = 0 then .queued else .heldBack (w.now + a.delay))
    | .heldBack _ => w.advanceTo a .queued
    | .queued => w.callSource a
    | .asking => w.askNext a
    | .producing _ outcome => w.produce a outcome
    | .reporting result => w.report a result
    | .answering answer continues => w.answer a answer continues
    | .stuck => w
  else w

/-- One step of the attempt of this number. -/
def advanceAttempt (w : World ε V) (number : Nat) : World ε V :=
  match w.cache.dispatcher.attempt? number with
  | some a => w.stepAttempt a
  | none => w

/-! ## §4. Readers and look-outs. -/

/-- Let a reader go. -/
def dropReader (w : World ε V) (key : Nat) : World ε V :=
  { w with seats := w.seats.filter (·.key != key) }.untether

/-- An item as its taker sees it: a read that asks for one result does not take the end for one. -/
def presented (role : Role) (item : Item V) : Item V :=
  match role, item with
  | .read, .finished => .failed .endedEarly
  | _, item => item

/-- Note an item that a reader handed out. -/
def noteDelivery (w : World ε V) (key : Nat) (item : Item V) : World ε V :=
  { w with deliveries := ⟨key, w.now, item, w.cache.staleness.lastSuccess⟩ :: w.deliveries }

/-- Whether a task that drives a reader ends with this item. -/
def endsTask (role : Role) (item : Item V) : Bool :=
  match role with
  | .read => true
  | .follow => match item with
    | .finished | .crashed => true
    | _ => false
  | .polled => false

/-- Put a reader that took a step back in its seat, and the cache as it left it in its place. -/
def reseat (w : World ε V) (key : Nat) (cache : Cache ε V) (reader : Reader) : World ε V :=
  { w with cache, seats := w.seats.map fun s => if s.key = key then { s with reader } else s }

/-- One step of the reader of this key. -/
def advanceReader (w : World ε V) (key : Nat) : World ε V :=
  match w.seat? key with
  | none => w
  | some seat =>
    let (cache, reader, item) := seat.reader.step w.cache w.now
    let stepped := w.reseat key cache reader
    match item with
    | none => stepped
    | some item =>
      let noted := stepped.noteDelivery key (presented seat.role item)
      if endsTask seat.role item then noted.dropReader key else noted

/-- Start a reader, if the program still holds the cache. -/
def openReader (w : World ε V) (reading : Reading) (role : Role) : World ε V :=
  if w.hasHandle then
    { w with seats := w.seats ++ [⟨w.nextKey, role, .new reading⟩], nextKey := w.nextKey + 1 }
  else w

/-- Hand a polled reader over to a task of its own. -/
def follow (w : World ε V) (key : Nat) : World ε V :=
  { w with seats := w.seats.map fun s => if s.key = key then { s with role := .follow } else s }

/-- Start a look-out, if the program still holds the cache. -/
def openLookout (w : World ε V) : World ε V :=
  if w.hasHandle then
    { w with lookouts := w.lookouts ++ [{ key := w.nextKey }], nextKey := w.nextKey + 1 }
  else w

/-- What a look-out sees: the phase if the cell was marked since, nothing yet, or the end. -/
inductive Sight (V : Type) where
  | phase (p : Phase (Sourced V))
  | nothing
  | finished
  deriving DecidableEq, Repr, Inhabited

/-- What the look-out would see now. -/
def sight (w : World ε V) (l : Lookout) : Sight V :=
  if l.isOver then .finished
  else if l.seen ≠ some w.cache.cell.version then .phase w.cache.cell.phase
  else if w.isCacheAlive then .nothing
  else .finished

/-- The look-out of this key looks. -/
def pollLookout (w : World ε V) (key : Nat) : World ε V :=
  { w with lookouts := w.lookouts.map fun l =>
      if l.key = key then
        match w.sight l with
        | .phase _ => { l with seen := some w.cache.cell.version }
        | .nothing => l
        | .finished => { l with isOver := true }
      else l }

/-- Let a look-out go. -/
def dropLookout (w : World ε V) (key : Nat) : World ε V :=
  { w with lookouts := w.lookouts.filter (·.key != key) }

/-! ## §5. Moves and runs. -/

/-- Bind a source; a cache that has launched an attempt keeps the old one. -/
def bind (w : World ε V) (source : Source ε V) : World ε V :=
  match w.cache.dispatcher.bind source with
  | .ok next => w.withDispatcher fun _ => next
  | .error _ => w

/-- Send a signal on the bus. -/
def publish (w : World ε V) (s : Signal) : World ε V :=
  { w with bus := w.bus.map fun b => if b.isOpen then (b.send s).1 else b }

/-- The program lets go of the cache. -/
def dropHandle (w : World ε V) : World ε V := { w with hasHandle := false }.untether

end World

/-- One critical section of one actor, one action of the program, or the passing of time. -/
inductive Move (ε V : Type) where
  -- what the program does to the cache
  | bind (source : Source ε V)
  | subscribe
  | invalidate
  | poke
  -- what it tells the book on staleness, and the bus
  | flush
  | observe (s : Signal)
  | recordSuccess
  | publish (s : Signal)
  | closeBus
  -- what it does with the notices and the refresher, if it keeps them to itself
  | takeNotices
  | dropNotices
  | startRefresher
  | stopRefresher
  -- readers and look-outs come, are handed over to a task, are asked and go
  | openReader (reading : Reading) (role : Role)
  | follow (key : Nat)
  | dropReader (key : Nat)
  | openLookout
  | pollLookout (key : Nat)
  | dropLookout (key : Nat)
  -- what the program lets go, and what changes around it
  | dropHandle
  | dropOwner
  | surround (surroundings : ε)
  -- the steps that the actors take by themselves
  | reader (key : Nat)
  | attempt (number : Nat)
  | arm
  | react (cue : Cue)
  /-- Time passes, as far as the clock can name it. -/
  | pass (d : Duration)

namespace World

variable {ε V : Type}

/-- The world after a move. -/
def apply (w : World ε V) : Move ε V → World ε V
  | .bind source => w.bind source
  | .subscribe => if w.hasHandle then w.withCache Cache.subscribe else w
  | .invalidate => if w.hasHandle then w.withCache Cache.invalidate else w
  | .poke => if w.hasHandle then w.withCache Cache.poke else w
  | .flush => w.withStaleness Staleness.forceFlush
  | .observe s => w.withStaleness fun book => (book.observe s).1
  | .recordSuccess => w.withStaleness (·.recordSuccess w.now)
  | .publish s => w.publish s
  | .closeBus => { w with bus := w.bus.map Bus.close }
  | .takeNotices => if w.hasSpareEnd then w.withStaleness fun book => book.take.1 else w
  | .dropNotices =>
    if w.hasSpareEnd then { w.withStaleness Staleness.deafen with hasSpareEnd := false } else w
  | .startRefresher => w.startRefresher
  | .stopRefresher => w.stopRefresher
  | .openReader reading role => w.openReader reading role
  | .follow key => w.follow key
  | .dropReader key => w.dropReader key
  | .openLookout => w.openLookout
  | .pollLookout key => w.pollLookout key
  | .dropLookout key => w.dropLookout key
  | .dropHandle => w.dropHandle
  | .dropOwner => { w with hasOwner := false }
  | .surround surroundings => { w with surroundings }
  | .reader key => w.advanceReader key
  | .attempt number => w.advanceAttempt number
  | .arm => w.armRefresher
  | .react cue => w.react cue
  | .pass d => { w with now := (w.now.later? d).getD w.now }

/-- The world after a list of moves. -/
def run (w : World ε V) (moves : List (Move ε V)) : World ε V := moves.foldl apply w

end World

end SingleFlight
