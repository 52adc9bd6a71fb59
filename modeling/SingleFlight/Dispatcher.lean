/-
  SingleFlight.Dispatcher — launches attempts, at most one of which executes at a time.

  The dispatcher knows the bound source, the newest attempt, the attempt that
  still owes its first answer (`pending`), the continuous attempt on its way
  (`stream`) and when the newest attempt starts.  A new attempt waits for the
  pending one; a continuous attempt that has answered is aborted at once, one
  that has not is aborted when the new attempt calls the source.  Aborting is
  taken to work at once.
-/
import SingleFlight.Attempt
import SingleFlight.Settings

namespace SingleFlight

variable (ε V : Type)

/-- The launcher of one cached value's attempts. -/
structure Dispatcher where
  pacing : Pacing
  /-- The source of the values. -/
  binding : Option (Source ε V) := none
  /-- An attempt was launched: the binding is final. -/
  sealed : Bool := false
  /-- The number of the newest attempt. -/
  latest : Nat := 0
  /-- The attempt that still owes its first answer. -/
  pending : Option Nat := none
  /-- The continuous attempt on its way. -/
  stream : Option Nat := none
  /-- When the newest attempt started or is going to. -/
  lastStart : Option Instant := none
  /-- The attempts on their way, oldest first. -/
  running : List (Attempt ε V) := []
  /-- The answers given so far, newest first. -/
  answers : List (Nat × Answer V) := []

/-- The outcome of a launch. -/
inductive Launch where
  /-- No source is bound. -/
  | unbound
  /-- The start lies beyond the clock's horizon: the caller crashes, and this is what it leaves behind. -/
  | overflow (left : Dispatcher ε V)
  /-- The attempt of this number is on its way. -/
  | started (next : Dispatcher ε V) (number : Nat)

variable {ε V}

namespace Dispatcher

/-! ## §1. Looking. -/

/-- The answer of an attempt, once given. -/
def answer? (d : Dispatcher ε V) (number : Nat) : Option (Answer V) := d.answers.lookup number

/-- Whether an attempt has answered. -/
def hasAnswered (d : Dispatcher ε V) (number : Nat) : Bool := (d.answer? number).isSome

/-- An attempt on its way. -/
def attempt? (d : Dispatcher ε V) (number : Nat) : Option (Attempt ε V) :=
  d.running.find? (·.number == number)

/-- How long an attempt launched at `now` is held back. -/
def holdBack (d : Dispatcher ε V) (now : Instant) : Duration :=
  match d.pacing, d.lastStart with
  | .spaced window, some start => window - now.age start
  | _, _ => 0

/-! ## §2. Single changes. -/

/-- Bind a source, as long as no attempt was launched. -/
def bind (d : Dispatcher ε V) (source : Source ε V) : Except Failure (Dispatcher ε V) :=
  if d.sealed then .error .reboundAfterUse else .ok { d with binding := some source }

/-- Note the first answer of an attempt; later ones change nothing. -/
def noteAnswer (d : Dispatcher ε V) (number : Nat) (answer : Answer V) : Dispatcher ε V :=
  if d.hasAnswered number then d else { d with answers := (number, answer) :: d.answers }

/-- Answer the waiters of an attempt and clear it from the pending place, unless it has answered already. -/
def settle (d : Dispatcher ε V) (number : Nat) (answer : Answer V) : Dispatcher ε V :=
  if d.hasAnswered number then d
  else { d.noteAnswer number answer with
          pending := if d.pending = some number then none else d.pending }

/-- Take an attempt off the list of those on their way. -/
def retire (d : Dispatcher ε V) (number : Nat) : Dispatcher ε V :=
  { d with running := d.running.filter (·.number != number) }

/-- Put a changed attempt in its place. -/
def update (d : Dispatcher ε V) (a : Attempt ε V) : Dispatcher ε V :=
  { d with running := d.running.map fun b => if b.number = a.number then a else b }

/-- An attempt dies without answering: its waiters learn that, and the pending place stays as it is. -/
def lose (d : Dispatcher ε V) (number : Nat) : Dispatcher ε V :=
  (d.retire number).noteAnswer number (.error (.fetchFailed number Failure.lostReason))

/-- Stop an attempt, if it is still on its way.  It stops at once and takes no further step, even if its task
is running at that moment. -/
def abort (d : Dispatcher ε V) (number : Nat) : Dispatcher ε V :=
  if (d.attempt? number).isSome then d.lose number else d

/-- Stop an attempt, if there is one to stop. -/
def dismiss (d : Dispatcher ε V) : Option Nat → Dispatcher ε V
  | some number => d.abort number
  | none => d

/-! ## §3. Launching. -/

/-- The continuous attempt on its way, if it still owes its first answer. -/
def unansweredStream (d : Dispatcher ε V) : Option Nat :=
  if d.stream = d.pending then d.stream else none

/-- The continuous attempt on its way, if it has answered. -/
def answeredStream (d : Dispatcher ε V) : Option Nat :=
  if d.stream = d.pending then none else d.stream

/-- Free the places of the previous attempt; a continuous one that has answered is aborted. -/
def clear (d : Dispatcher ε V) : Dispatcher ε V :=
  { d.dismiss d.answeredStream with pending := none, stream := none }

/-- Launch an attempt at `now`. -/
def launch (d : Dispatcher ε V) (now : Instant) : Launch ε V :=
  match d.binding with
  | none => .unbound
  | some source =>
    let number := d.latest + 1
    let delay := d.holdBack now
    let cleared := { d.clear with sealed := true, latest := number }
    match now.later? delay with
    | none => .overflow cleared
    | some start =>
      let attempt : Attempt ε V :=
        { number, delay, predecessor := d.pending, supersedes := d.unansweredStream }
      .started
        { cleared with
          lastStart := some start
          running := cleared.running ++ [attempt]
          stream := if source.isContinuous then some number else none
          pending := some number }
        number

end Dispatcher

end SingleFlight
