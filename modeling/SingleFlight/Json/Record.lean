/-
  SingleFlight.Json.Record — records with one field, read from a JSON text.

  A record is written as an object, in which other members are skipped, or as
  an array of its one field.  Reading goes from left to right, and the first
  problem decides: the text may be malformed, or well formed so far but of the
  wrong shape.
-/
import SingleFlight.Json.Octets
import SingleFlight.Numeric.Binary64

namespace SingleFlight.Json

/-- Why a record could not be read. -/
inductive Fault where
  /-- This is no JSON text. -/
  | malformed
  /-- This is JSON of another shape. -/
  | mismatch
  deriving DecidableEq, Repr, Inhabited

/-- A piece that is malformed if it is missing. -/
def orMalformed {α : Type} : Option α → Except Fault α
  | some a => .ok a
  | none => .error .malformed

/-! ## §1. Numbers that are too large. -/

/-- Digits taken into a 64-bit number as long as they fit: the number, and how many were taken. -/
def absorb : List Nat → Nat → Nat × Nat
  | [], n => (n, 0)
  | d :: rest, n =>
    if n * 10 + d < 2 ^ 64 then
      let (m, taken) := absorb rest (n * 10 + d)
      (m, taken + 1)
    else (n, 0)

/-- The digits at the front. -/
def digits (bs : Octets) : List Nat := (bs.takeWhile isDigit).map digitValue

/-- The number that digits write. -/
def ofDigits (ds : List Nat) : Nat := ds.foldl (fun n d => n * 10 + d) 0

/-- The exponent written at the front, if there is one. -/
def exponent : Octets → Int
  | [] => 0
  | b :: rest =>
    if glyph b = 'e' ∨ glyph b = 'E' then
      let n : Int := ofDigits (digits (skipSign rest))
      if rest.head?.any (glyph · = '-') then -n else n
    else 0

/-- The digits and the power of ten of a number without its sign, as far as 64 bits hold them. -/
def magnitude (bs : Octets) : Nat × Int :=
  let whole := digits bs
  let (n, taken) := absorb whole 0
  let rest := bs.dropWhile isDigit
  let scale : Int := (whole.length - taken : Nat)
  match rest with
  | b :: more =>
    if glyph b = '.' then
      let (n, taken) := absorb (digits more) n
      (n, scale - taken + exponent (more.dropWhile isDigit))
    else (n, scale + exponent rest)
  | [] => (n, scale)

/-- Whether `n · 10 ^ e` rounds to a number that the 64-bit floating-point format holds. -/
def isInRange (n : Nat) (e : Int) : Bool :=
  n == 0 || e < 0 ||
    (e ≤ 308 && Binary64.roundCount n * Binary64.roundCount (.pow 10 e.toNat)
      < Nat.pow 2 1024 - Nat.pow 2 970)

/-- Whether a number, without its sign, is well formed and in range. -/
def isNumber (bs : Octets) : Bool :=
  ((skipWhole bs).bind skipFraction |>.bind skipExponent).isSome
    && isInRange (magnitude bs).1 (magnitude bs).2

/-! ## §2. Single values. -/

/-- The fault of a value that is not of the kind asked for: a mismatch if as much of it is well
formed as has to be read to know its kind. -/
def wrongKind : Octets → Fault
  | [] => .malformed
  | b :: rest =>
    let isKnown := match glyph b with
      | 'n' => (skipWord ['u', 'l', 'l'] rest).isSome
      | 't' => (skipWord ['r', 'u', 'e'] rest).isSome
      | 'f' => (skipWord ['a', 'l', 's', 'e'] rest).isSome
      | '"' => (readText rest).isSome
      | '-' => isNumber rest
      | '[' | '\x7b' => true
      | c => c.isDigit && isNumber (b :: rest)
    if isKnown then .mismatch else .malformed

/-- A text. -/
def readString (bs : Octets) : Except Fault (String × Octets) :=
  match skipSpace bs with
  | [] => .error .malformed
  | b :: rest =>
    if glyph b = '"' then orMalformed (readText rest) else .error (wrongKind (b :: rest))

/-- A truth value. -/
def readBool (bs : Octets) : Except Fault (Bool × Octets) :=
  match skipSpace bs with
  | [] => .error .malformed
  | b :: rest =>
    if glyph b = 't' then (orMalformed (skipWord ['r', 'u', 'e'] rest)).map fun rest => (true, rest)
    else if glyph b = 'f' then
      (orMalformed (skipWord ['a', 'l', 's', 'e'] rest)).map fun rest => (false, rest)
    else .error (wrongKind (b :: rest))

/-! ## §3. Records. -/

/-- The one field of a record. -/
structure Field (α : Type) where
  name : String
  read : Octets → Except Fault (α × Octets)

namespace Field

variable {α : Type}

/-- The name of the next member and the octets after it; the first member has no comma before it. -/
def readName (isFirst : Bool) (bs : Octets) : Except Fault (String × Octets) := do
  let rest ← if isFirst then pure bs else orMalformed (skipWord [','] bs)
  let rest ← orMalformed (skipWord ['"'] (skipSpace rest))
  orMalformed (readText rest)

/-- The octets after the colon of a member. -/
def skipColon (bs : Octets) : Except Fault Octets := orMalformed (skipWord [':'] (skipSpace bs))

/-- The members of an object, after its bracket or after a member, at most `fuel` of them.  The
field must be there once; other members are skipped. -/
def readMembers (f : Field α) : Nat → Bool → Option α → Octets → Except Fault (α × Octets)
  | 0, _, _, _ => .error .malformed
  | fuel + 1, isFirst, found, bs =>
    match skipSpace bs with
    | [] => .error .malformed
    | b :: rest =>
      if glyph b = '\x7d' then
        match found with
        | some a => .ok (a, rest)
        | none => .error .mismatch
      else
        match readName isFirst (b :: rest) with
        | .error fault => .error fault
        | .ok (name, rest) =>
          if name = f.name then
            match found with
            | some _ => .error .mismatch
            | none =>
              match skipColon rest >>= f.read with
              | .error fault => .error fault
              | .ok (a, rest) => readMembers f fuel false (some a) rest
          else
            match skipColon rest >>= fun rest => orMalformed (skipValue rest) with
            | .error fault => .error fault
            | .ok rest => readMembers f fuel false found rest

/-- The one element of an array, after its bracket. -/
def readElement (f : Field α) (bs : Octets) : Except Fault (α × Octets) :=
  match skipSpace bs with
  | [] => .error .malformed
  | b :: rest =>
    if glyph b = ']' then .error .mismatch
    else do
      let (a, rest) ← f.read (b :: rest)
      let rest ← orMalformed (skipWord [']'] (skipSpace rest))
      return (a, rest)

/-- A record with this field, and the octets after it. -/
def readRecord (f : Field α) (bs : Octets) : Except Fault (α × Octets) :=
  match skipSpace bs with
  | [] => .error .malformed
  | b :: rest =>
    if glyph b = '\x7b' then f.readMembers bs.length true none rest
    else if glyph b = '[' then f.readElement rest
    else .error (wrongKind (b :: rest))

/-- A record with this field at the front of a text; what stands behind it does not matter. -/
def readFront (f : Field α) (bs : Octets) : Except Fault α := (f.readRecord bs).map (·.1)

/-- A record with this field that is all of a text. -/
def readWhole (f : Field α) (bs : Octets) : Except Fault α := do
  let (a, rest) ← f.readRecord bs
  if (skipSpace rest).isEmpty then return a else .error .malformed

end Field

end SingleFlight.Json
