/-
  SingleFlight.Numeric.Binary64 — shares as binary floating-point numbers.

  A share `a / b` of two counts is computed as a machine would: both counts
  are first rounded to 53 significant bits, then the quotient is, each time to
  the nearest number and a tie to the even one.  Everything is natural-number
  arithmetic on the 64 bits of the format.
-/

namespace SingleFlight

/-- A number in the 64-bit binary floating-point format, given by its bits. -/
structure Binary64 where
  bits : UInt64
  deriving DecidableEq, Repr, Inhabited

namespace Binary64

/-- The nearest natural number to `a / b`; a tie goes to the even one. -/
def roundDiv (a b : Nat) : Nat :=
  let q := a / b
  let twice := 2 * (a % b)
  if twice < b ∨ (twice = b ∧ q % 2 = 0) then q else q + 1

/-- The nearest number with at most 53 significant bits. -/
def roundCount (n : Nat) : Nat :=
  let excess := n.log2 + 1 - 53
  roundDiv n (.pow 2 excess) * .pow 2 excess

/-- The scale at which the quotient `a / b` fills 53 bits, for `a ≤ b`. -/
def scaleOf (a b : Nat) : Nat :=
  let k := 53 + b.log2 - a.log2
  if a * .pow 2 k / b < .pow 2 53 then k else k - 1

/-- The number nearest to `a / b`, for positive `a ≤ b` of ordinary size. -/
def quotient (a b : Nat) : Binary64 :=
  let k := scaleOf a b
  ⟨UInt64.ofNat ((1074 - k) * .pow 2 52 + roundDiv (a * .pow 2 k) b)⟩

/-- Zero. -/
def zero : Binary64 := ⟨0⟩

/-- The share of `part` in `total`; zero if there is nothing to share. -/
def share (part total : Nat) : Binary64 :=
  if total = 0 ∨ part = 0 then zero else quotient (roundCount part) (roundCount total)

end Binary64

end SingleFlight
