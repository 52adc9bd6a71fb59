/-
  SingleFlight.Reader — one read of the cache, from its first look to its last item.

  A reader advances in small steps, each at most one critical section of the
  cache.  It hands out items: values, at most one failure, and its end.  A
  one-shot reader gives one item; a live one gives every new value; a
  demanding one starts with a fetch of its own.
-/
import SingleFlight.Cache

namespace SingleFlight

/-- What a reader hands out. -/
inductive Item (V : Type) where
  /-- A value. -/
  | value (content : Sourced V)
  /-- The read failed. -/
  | failed (failure : Failure)
  /-- There is nothing more to come. -/
  | finished
  /-- The reader crashed. -/
  | crashed
  deriving DecidableEq, Repr, Inhabited

/-- How a reader reads. -/
structure Reading where
  /-- It starts with a fetch, whatever is held. -/
  demands : Bool
  /-- It goes on after its first value. -/
  follows : Bool
  deriving DecidableEq, Repr, Inhabited

namespace Reading

/-- One value, from the cache if it is fresh. -/
def once : Reading := ⟨false, false⟩

/-- One value, freshly fetched. -/
def anew : Reading := ⟨true, false⟩

/-- The value and all that follow. -/
def live : Reading := ⟨false, true⟩

/-- A freshly fetched value and all that follow. -/
def anewLive : Reading := ⟨true, true⟩

end Reading

/-- Where a reader stands. -/
inductive Reader.Stage where
  /-- About to show interest, and then to look. -/
  | subscribing
  /-- About to look. -/
  | looking
  /-- About to demand a fetch. -/
  | demanding
  /-- Waiting for the first answer of an attempt that it demanded. -/
  | expecting (attempt : Nat)
  /-- Waiting for the first answer of an attempt. -/
  | waiting (attempt : Nat)
  /-- Waiting for a mark on the cell. -/
  | parked
  /-- Through, but not yet told to its owner. -/
  | closing
  /-- Through. -/
  | over
  /-- Crashed. -/
  | crashed
  deriving DecidableEq, Repr, Inhabited

/-- One read of the cache. -/
structure Reader where
  reading : Reading
  stage : Reader.Stage
  /-- The revision of the last value it received. -/
  delivered : Option Nat := none
  /-- The version of the cell at its last look. -/
  seen : Nat := 0
  deriving DecidableEq, Repr, Inhabited

namespace Reader

variable {ε V : Type}

/-- A reader that has not looked yet. -/
def new (reading : Reading) : Reader where
  reading := reading
  stage := if reading.demands then .demanding else .subscribing

/-- Whether the reader can take a step. -/
def isReady (r : Reader) (c : Cache ε V) : Bool :=
  match r.stage with
  | .expecting attempt | .waiting attempt => c.dispatcher.hasAnswered attempt
  | .parked => c.cell.version != r.seen
  | _ => true

/-- Whether the reader keeps the cache in being. -/
def holdsCache (r : Reader) : Bool :=
  match r.stage with
  | .over | .crashed => false
  | _ => true

/-- Where a reader goes after a value. -/
def stageAfterValue (r : Reader) : Stage := if r.reading.follows then .looking else .closing

/-- Take in what a look gave. -/
def receive (r : Reader) (access : Access V) : Reader × Option (Item V) :=
  match access with
  | .nothing => ({ r with stage := if r.reading.follows then .parked else .subscribing }, none)
  | .served content revision =>
    ({ r with delivered := some revision, stage := r.stageAfterValue }, some (.value content))
  | .ticket (.wait attempt) => ({ r with stage := .waiting attempt }, none)
  | .ticket (.failed failure) => ({ r with stage := .closing }, some (.failed failure))
  | .ticket .crashed => ({ r with stage := .crashed }, some .crashed)

/-- Take in what a demand gave. -/
def receiveTicket (r : Reader) (ticket : Ticket) : Reader × Option (Item V) :=
  match ticket with
  | .wait attempt => ({ r with stage := .expecting attempt }, none)
  | .failed failure => ({ r with stage := .over }, some (.failed failure))
  | .crashed => ({ r with stage := .crashed }, some .crashed)

/-- Take in the answer of an attempt. -/
def receiveAnswer (r : Reader) (answer : Answer V) : Reader × Option (Item V) :=
  match answer with
  | .ok fetched =>
    ({ r with
        delivered := fetched.revision.or r.delivered
        stage := r.stageAfterValue }, some (.value fetched.content))
  | .error failure => ({ r with stage := .closing }, some (.failed failure))

/-- Take in the answer of a demanded attempt.  A reader that goes on takes the cell as it is now
for seen and delivered. -/
def receiveExpected (r : Reader) (cell : Cell V) (answer : Answer V) : Reader × Option (Item V) :=
  match answer with
  | .ok fetched =>
    if r.reading.follows then
      ({ r with delivered := some cell.revision, seen := cell.version, stage := .looking },
        some (.value fetched.content))
    else ({ r with stage := .over }, some (.value fetched.content))
  | .error failure => ({ r with stage := .over }, some (.failed failure))

/-- One step of a reader: at most one critical section of the cache, and at most one item.  A
reader that cannot take a step stays as it is. -/
def step (r : Reader) (c : Cache ε V) (now : Instant) : Cache ε V × Reader × Option (Item V) :=
  match r.stage with
  | .subscribing => (c.subscribe, { r with stage := .looking }, none)
  | .looking =>
    let (next, access) := c.access now r.delivered
    (next, { r with seen := c.cell.version }.receive access)
  | .demanding =>
    let (next, ticket) := c.demand now
    (next, r.receiveTicket ticket)
  | .expecting attempt =>
    match c.dispatcher.answer? attempt with
    | some answer => (c, r.receiveExpected c.cell answer)
    | none => (c, r, none)
  | .waiting attempt =>
    match c.dispatcher.answer? attempt with
    | some answer => (c, r.receiveAnswer answer)
    | none => (c, r, none)
  | .parked =>
    if c.cell.version = r.seen then (c, r, none) else (c, { r with stage := .looking }, none)
  | .closing => (c, { r with stage := .over }, some .finished)
  | .over => (c, r, some .finished)
  | .crashed => (c, r, some .crashed)

end Reader

end SingleFlight
