/-
  SingleFlight.World.Schedule — one fair way to run a world on a single thread.

  Actors run in the order in which they became ready, and each runs until it
  has to wait.  A world is settled when nobody is ready.  The clock moves only
  between settled worlds: `sleepFor` goes from timer to timer, `jumpBy` sets
  the clock at once and then lets everybody run whose timer has passed,
  earliest timer first.  Sources may keep a world busy for ever at one
  instant, so running takes fuel; `patience` is more than any settled world
  needs.
-/
import SingleFlight.World

namespace SingleFlight

/-- Who may act by itself. -/
inductive Actor where
  | refresher
  | reader (key : Nat)
  | attempt (number : Nat)
  deriving DecidableEq, Repr, Inhabited

namespace World

variable {ε V : Type}

/-! ## §1. Readiness. -/

/-- The cue the refresher reacts to next. -/
def nextCue (w : World ε V) : Option Cue := [Cue.notice, .signal, .timer].find? w.hasCue

/-- Whether the refresher can take a step. -/
def isRefresherReady (w : World ε V) : Bool :=
  match w.refresher with
  | .arming _ => true
  | .armed .. => w.nextCue.isSome
  | .idle | .stopped => false

/-- Whether an actor can take a step of its own accord. -/
def isReady (w : World ε V) : Actor → Bool
  | .refresher => w.isRefresherReady
  | .reader key => (w.seat? key).any fun s => s.role != .polled && s.reader.isReady w.cache
  | .attempt number => (w.cache.dispatcher.attempt? number).any w.canStep

/-- The instant an actor sleeps until; one that waits for no timer counts from now. -/
def wakeTime (w : World ε V) : Actor → Instant
  | .refresher => w.refresher.timer?.getD w.now
  | .reader _ => w.now
  | .attempt number => ((w.cache.dispatcher.attempt? number).bind Attempt.timer?).getD w.now

/-- Everybody who may act: the refresher, the readers, the attempts. -/
def actors (w : World ε V) : List Actor :=
  .refresher :: (w.seats.map fun s => .reader s.key)
    ++ w.cache.dispatcher.running.map fun a => .attempt a.number

/-- Nobody can take a step. -/
def IsSettled (w : World ε V) : Prop := ∀ a ∈ w.actors, w.isReady a = false

/-- Put an actor behind all that sleep no longer than it. -/
def insertByWakeTime (w : World ε V) (a : Actor) : List Actor → List Actor
  | [] => [a]
  | b :: rest =>
    if w.wakeTime a < w.wakeTime b then a :: b :: rest else b :: w.insertByWakeTime a rest

/-- Everybody who is ready, earliest timer first. -/
def readyActors (w : World ε V) : List Actor :=
  (w.actors.filter w.isReady).foldl (fun sorted a => w.insertByWakeTime a sorted) []

/-! ## §2. Running. -/

/-- The move by which an actor takes its next step. -/
def nextMove (w : World ε V) : Actor → Move ε V
  | .reader key => .reader key
  | .attempt number => .attempt number
  | .refresher =>
    match w.refresher, w.nextCue with
    | .armed .., some cue => .react cue
    | _, _ => .arm

/-- Let an actor run until it has to wait. -/
def runActor : Nat → Actor → World ε V → World ε V
  | 0, _, w => w
  | fuel + 1, a, w => if w.isReady a then runActor fuel a (w.apply (w.nextMove a)) else w

/-- Let everybody run, in the order in which they became ready. -/
def drain : Nat → List Actor → World ε V → World ε V
  | 0, _, w => w
  | fuel + 1, queue, w =>
    match queue ++ w.readyActors.filter (!queue.contains ·) with
    | [] => w
    | a :: rest => drain fuel rest (runActor fuel a w)

/-- The fuel for running. -/
def patience : Nat := 1000000

/-- Let everything happen that can happen at this instant. -/
def settle (w : World ε V) : World ε V := drain patience [] w

/-! ## §3. Moving the clock. -/

/-- The instants that actors sleep until. -/
def timers (w : World ε V) : List Instant :=
  w.refresher.timer?.toList ++ w.cache.dispatcher.running.filterMap Attempt.timer?

/-- The earliest timer after now, and no later than `target`. -/
def nextTimer? (w : World ε V) (target : Instant) : Option Instant :=
  (w.timers.filter fun t => w.now < t ∧ t ≤ target).min?

/-- Set the clock ahead and let everything happen. -/
def settleAt (w : World ε V) (t : Instant) : World ε V :=
  (w.apply (.pass (t - w.now).toNat)).settle

/-- Go from timer to timer up to `target`. -/
def sleepUntil : Nat → Instant → World ε V → World ε V
  | 0, _, w => w
  | fuel + 1, target, w =>
    match w.nextTimer? target with
    | some t => sleepUntil fuel target (w.settleAt t)
    | none => w.settleAt target

/-- Sleep for a while. -/
def sleepFor (w : World ε V) (d : Duration) : World ε V := sleepUntil patience (w.now + d) w

/-- Set the clock ahead at once. -/
def jumpBy (w : World ε V) (d : Duration) : World ε V := w.settleAt (w.now + d)

/-! ## §4. Asking a polled reader. -/

/-- Let a polled reader run until it hands out an item or has to wait. -/
def pollReader : Nat → Nat → World ε V → World ε V × Option (Item V)
  | 0, _, w => (w, none)
  | fuel + 1, key, w =>
    if (w.seat? key).any (·.reader.isReady w.cache) then
      let next := w.apply (.reader key)
      if next.deliveries.length = w.deliveries.length then pollReader fuel key next
      else (next, next.deliveries.head?.map Delivery.item)
    else (w, none)

end World

end SingleFlight
