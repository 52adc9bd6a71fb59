/-
  SingleFlight.Time — instants and durations.

  Both count nanoseconds.  An instant is measured from the start of the clock
  and may lie before it; a duration is never negative.  The clock can name the
  instants below `Instant.horizon` only, so adding a duration may fail.
-/

namespace SingleFlight

/-- A length of time, in nanoseconds. -/
abbrev Duration := Nat

/-- A point in time, in nanoseconds from the start of the clock. -/
abbrev Instant := Int

namespace Duration

/-- `s` seconds. -/
def ofSecs (s : Nat) : Duration := s * 1000000000

/-- `ms` milliseconds. -/
def ofMillis (ms : Nat) : Duration := ms * 1000000

end Duration

namespace Instant

/-- The first instant the clock cannot name: 2^63 - 1 seconds after its start. -/
def horizon : Instant := 9223372036854775807 * 1000000000

/-- The instant `d` after `t`, if the clock can name it.  Adding nothing never fails. -/
def later? (t : Instant) (d : Duration) : Option Instant :=
  if d = 0 ∨ t + d < horizon then some (t + d) else none

/-- How long before `now` the instant `t` was; nothing if it lies ahead. -/
def age (now t : Instant) : Duration := (now - t).toNat

theorem le_add (t : Instant) (d : Duration) : t ≤ t + d :=
  Int.le_add_of_nonneg_right (Int.natCast_nonneg d)

/-- The clock can name all instants below its horizon. -/
theorem later?_eq {t : Instant} {d : Duration} (named : t + (d : Instant) < horizon) :
    t.later? d = some (t + d) := by
  rw [later?, if_pos (Or.inr named)]

/-- An instant that the clock can name is the one asked for. -/
theorem later?_getD {t s : Instant} {d : Duration} (named : (t.later? d).isSome = true) :
    (t.later? d).getD s = t + d := by
  unfold later? at named ⊢
  split at named
  next h =>
    rw [if_pos h]
    rfl
  next => cases named

end Instant

end SingleFlight
