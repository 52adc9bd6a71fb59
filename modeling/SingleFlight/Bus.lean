/-
  SingleFlight.Bus — a broadcast channel of signals with one receiver.

  The channel keeps as many signals as its capacity, rounded up to a power of
  two; when more are sent before the receiver runs, the oldest are lost and
  the receiver learns how many.
-/
import SingleFlight.Signal

namespace SingleFlight

/-- A broadcast channel, seen from its one receiver. -/
structure Bus where
  capacity : Nat
  /-- Signals that the receiver has not taken yet, oldest first. -/
  queue : List Signal := []
  /-- Signals lost since the receiver last took one. -/
  missed : Nat := 0
  /-- The sender is still there. -/
  isOpen : Bool := true
  /-- The receiver is still there. -/
  hasReceiver : Bool := true
  deriving DecidableEq, Repr, Inhabited

/-- What the receiver finds when it looks. -/
inductive Received where
  /-- Some signals were lost. -/
  | lagged (missed : Nat)
  /-- The oldest signal. -/
  | signal (s : Signal)
  /-- Nothing, and nothing will come. -/
  | closed
  deriving DecidableEq, Repr, Inhabited

namespace Bus

/-- The least power of two that is no less than `n`, searched among the first `fuel` doublings of `p`. -/
def powerFrom (n : Nat) : Nat → Nat → Nat
  | 0, p => p
  | fuel + 1, p => if n ≤ p then p else powerFrom n fuel (2 * p)

/-- A channel for at least `n` signals. -/
def new (n : Nat) : Bus where
  capacity := powerFrom n n 1

/-- A channel that nobody listens to. -/
def unheard (n : Nat) : Bus := { new n with hasReceiver := false }

/-- Send a signal; the answer is the number of receivers, if there are any. -/
def send (b : Bus) (s : Signal) : Bus × Option Nat :=
  if b.hasReceiver then
    let queue := b.queue ++ [s]
    let excess := queue.length - b.capacity
    ({ b with queue := queue.drop excess, missed := b.missed + excess }, some 1)
  else (b, none)

/-- What the receiver finds, if it finds anything. -/
def receive? (b : Bus) : Option (Received × Bus) :=
  if b.hasReceiver then
    if b.missed > 0 then some (.lagged b.missed, { b with missed := 0 })
    else match b.queue with
      | s :: rest => some (.signal s, { b with queue := rest })
      | [] => if b.isOpen then none else some (.closed, b)
  else none

/-- The sender goes. -/
def close (b : Bus) : Bus := { b with isOpen := false }

/-- The receiver goes. -/
def leave (b : Bus) : Bus := { b with hasReceiver := false, queue := [], missed := 0 }

end Bus

end SingleFlight
