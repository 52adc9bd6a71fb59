/-
  SingleFlight.Proofs.Memo — what a cached value is to somebody who does one thing after another.

  Who never does two things at once need not know of attempts, readers and a
  refresher.  There is a value or there is none, the time at which it was
  stored, and a mark that says it is due before its time.  A `Memo` is just
  that, with the clock and the number of calls.  It says what each operation
  gives in a line or two, and no operation waits for another.

  Main results:
    * `Memo.fetch_held` — what was held before a fetch is of no matter to it.
    * `Memo.now_le_run` — no operation sets the clock back.
-/
import SingleFlight.Failure
import SingleFlight.Settings
import SingleFlight.Source

namespace SingleFlight

variable {ε V : Type}

/-- A value, or the words of a failure. -/
abbrev Result (V : Type) := Except String V

/-- What an outcome is to whoever waits for it. -/
def Outcome.result : Outcome V → Result V
  | .value v => .ok v
  | .failed reason => .error reason
  | .crashed => .error Failure.crashReason
  | .uncopyable => .error Failure.lostReason

/-- On what terms a value is kept: when it is due, and what each call of its source brings. -/
structure Terms (ε V : Type) where
  freshness : Freshness
  /-- The capacity of the bus on which signals come, if there is one. -/
  bus : Option Nat
  /-- One production per call, numbered from 1; none stands for a call that crashes at once. -/
  call : Nat → Option (Production ε V)
  /-- The name of the owner of the source, if it works for one. -/
  owner : Option String := none
  surroundings : ε

/-- Whether a signal makes the value due: one that cannot come does not. -/
def Terms.triggersOn (terms : Terms ε V) (s : Signal) : Bool :=
  terms.bus.isSome && terms.freshness.triggersOn s

/-- A value that is kept by somebody who does one thing after another. -/
structure Memo (V : Type) where
  /-- The value, and when it was stored. -/
  held : Option (V × Instant) := none
  /-- A signal has made the value due. -/
  dirty : Bool := false
  /-- How often the source was called. -/
  calls : Nat := 0
  now : Instant := 0
  deriving DecidableEq, Repr, Inhabited

/-- What can be done to the value, or happen around it. -/
inductive Memo.Op where
  /-- Read it. -/
  | value
  /-- Read it anew. -/
  | refresh
  /-- Throw it away. -/
  | invalidate
  /-- Ask the refresher to throw it away. -/
  | flush
  /-- A signal comes. -/
  | signal (s : Signal)
  /-- Time passes, from timer to timer. -/
  | sleep (d : Duration)
  /-- The clock is set ahead at once. -/
  | jump (d : Duration)
  deriving DecidableEq, Repr, Inhabited

namespace Memo

/-! ## §1. The operations. -/

/-- The value, fresh or not. -/
def peek (m : Memo V) : Option V := m.held.map Prod.fst

/-- The value, if it is not due. -/
def fresh? (m : Memo V) (interval : Duration) : Option V :=
  match m.held with
  | some (v, stored) => if !m.dirty && m.now.age stored < interval then some v else none
  | none => none

/-- A call of the source has come to a result: a value takes the place of the old one, and a failure
leaves none. -/
def land (m : Memo V) (result : Result V) : Memo V × Result V :=
  match result with
  | .ok v => ({ m with held := some (v, m.now), dirty := false }, result)
  | .error _ => ({ m with held := none }, result)

/-- Call the source once, and wait for what it brings. -/
def fetch (m : Memo V) (terms : Terms ε V) : Memo V × Result V :=
  let called := { m with calls := m.calls + 1 }
  match terms.call called.calls with
  | none => called.land (.error Failure.crashReason)
  | some p =>
    let due := m.now + p.delay
    { called with now := due }.land (p.outcome terms.surroundings due).result

/-- Read the value: fetch it if it is due. -/
def read (m : Memo V) (terms : Terms ε V) : Memo V × Result V :=
  match m.fresh? terms.freshness.interval with
  | some v => (m, .ok v)
  | none => m.fetch terms

/-- What an operation makes of the memo, and the result if it is a read. -/
def step (m : Memo V) (terms : Terms ε V) : Op → Memo V × Option (Result V)
  | .value => (m.read terms).map id some
  | .refresh => (m.fetch terms).map id some
  | .invalidate | .flush => ({ m with held := none }, none)
  | .signal s => ({ m with dirty := m.dirty || terms.triggersOn s }, none)
  | .sleep d | .jump d => ({ m with now := m.now + d }, none)

/-- The memo after a list of operations, and the results of the reads among them. -/
def run (m : Memo V) (terms : Terms ε V) : List Op → Memo V × List (Result V)
  | [] => (m, [])
  | op :: ops =>
    let (next, result) := m.step terms op
    let (last, results) := next.run terms ops
    (last, result.toList ++ results)

/-! ## §2. What a fetch hangs on, and the clock. -/

theorem land_now (m : Memo V) (result : Result V) : (m.land result).1.now = m.now := by
  cases result <;> rfl

/-- What is held when a result comes is of no matter. -/
theorem land_held (m : Memo V) (held : Option (V × Instant)) (result : Result V) :
    { m with held }.land result = m.land result := by
  cases result <;> rfl

/-- What was held before a fetch is of no matter to it. -/
theorem fetch_held (m : Memo V) (held : Option (V × Instant)) (terms : Terms ε V) :
    { m with held }.fetch terms = m.fetch terms := by
  unfold fetch
  dsimp only
  cases terms.call (m.calls + 1) with
  | none => exact land_held { m with calls := m.calls + 1 } held _
  | some p => exact land_held { m with calls := m.calls + 1, now := m.now + p.delay } held _

/-- A fetch takes its time. -/
theorem now_le_fetch (m : Memo V) (terms : Terms ε V) : m.now ≤ (m.fetch terms).1.now := by
  unfold fetch
  dsimp only
  cases terms.call (m.calls + 1) with
  | none => exact Int.le_of_eq (land_now { m with calls := m.calls + 1 } _).symm
  | some p =>
      rw [land_now]
      exact m.now.le_add p.delay

theorem now_le_read (m : Memo V) (terms : Terms ε V) : m.now ≤ (m.read terms).1.now := by
  unfold read
  split
  · exact Int.le_refl _
  · exact m.now_le_fetch terms

theorem now_le_step (m : Memo V) (terms : Terms ε V) (op : Op) : m.now ≤ (m.step terms op).1.now := by
  cases op with
  | value => exact m.now_le_read terms
  | refresh => exact m.now_le_fetch terms
  | invalidate | flush | signal => exact Int.le_refl _
  | sleep d | jump d =>
      exact m.now.le_add d

/-- No operation sets the clock back. -/
theorem now_le_run (m : Memo V) (terms : Terms ε V) (ops : List Op) :
    m.now ≤ (m.run terms ops).1.now := by
  induction ops generalizing m with
  | nil => exact Int.le_refl _
  | cons op ops ih => exact Int.le_trans (m.now_le_step terms op) (ih _)

end Memo

end SingleFlight
