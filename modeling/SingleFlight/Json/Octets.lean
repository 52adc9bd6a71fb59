/-
  SingleFlight.Json.Octets — the pieces of a JSON text, read octet by octet.

  Every reader takes the octets that are left and gives the octets after the
  piece, or none if the piece is not well formed.  A text that is kept has to
  be proper Unicode; one that is skipped may hold any octets and any escaped
  code units, and a number that is skipped may be of any size.
-/

namespace SingleFlight.Json

/-- Octets that are left to read. -/
abbrev Octets := List UInt8

/-! ## §1. Characters. -/

/-- The ASCII character of an octet; octets above 127 give characters of no meaning here. -/
def glyph (b : UInt8) : Char := Char.ofNat b.toNat

/-- Whether an octet is white space between the pieces. -/
def isSpace (b : UInt8) : Bool := [' ', '\n', '\t', '\r'].contains (glyph b)

/-- Whether an octet is a decimal digit. -/
def isDigit (b : UInt8) : Bool := (glyph b).isDigit

/-- The value of a decimal digit. -/
def digitValue (b : UInt8) : Nat := b.toNat - 48

/-- The octets without the white space in front. -/
def skipSpace (bs : Octets) : Octets := bs.dropWhile isSpace

/-- The octets after a word. -/
def skipWord : List Char → Octets → Option Octets
  | [], bs => some bs
  | _ :: _, [] => none
  | c :: word, b :: rest => if glyph b = c then skipWord word rest else none

/-- The value of a hexadecimal digit. -/
def hexValue? (b : UInt8) : Option Nat :=
  let c := glyph b
  if c.isDigit then some (c.toNat - 48)
  else if 'a' ≤ c ∧ c ≤ 'f' then some (c.toNat - 87)
  else if 'A' ≤ c ∧ c ≤ 'F' then some (c.toNat - 55)
  else none

/-- The code unit written in four hexadecimal digits. -/
def readUnit : Octets → Option (Nat × Octets)
  | a :: b :: c :: d :: rest => do
    let a ← hexValue? a
    let b ← hexValue? b
    let c ← hexValue? c
    let d ← hexValue? d
    return (((a * 16 + b) * 16 + c) * 16 + d, rest)
  | _ => none

/-- The character that an escape letter stands for. -/
def letterEscape? (b : UInt8) : Option Char :=
  [('"', '"'), ('\\', '\\'), ('/', '/'), ('b', Char.ofNat 8), ('f', Char.ofNat 12), ('n', '\n'),
    ('r', '\r'), ('t', '\t')].lookup (glyph b)

/-! ## §2. Texts. -/

/-- Whether a code unit is the first half of a pair. -/
def isHighHalf (n : Nat) : Bool := 0xd800 ≤ n && n < 0xdc00

/-- Whether a code unit is the second half of a pair. -/
def isLowHalf (n : Nat) : Bool := 0xdc00 ≤ n && n < 0xe000

/-- The character written by code units, after the `u` of the first. -/
def readUnits (bs : Octets) : Option (Char × Octets) := do
  let (n, rest) ← readUnit bs
  if isLowHalf n then none
  else if isHighHalf n then do
    let rest ← skipWord ['\\', 'u'] rest
    let (m, rest) ← readUnit rest
    if isLowHalf m then
      return (Char.ofNat (0x10000 + (n - 0xd800) * 0x400 + (m - 0xdc00)), rest)
    else none
  else return (Char.ofNat n, rest)

/-- The character that an escape stands for, after its backslash. -/
def readEscape : Octets → Option (Char × Octets)
  | [] => none
  | b :: rest =>
    if glyph b = 'u' then readUnits rest
    else (letterEscape? b).map fun c => (c, rest)

/-- The octets of a text up to its closing quote, with the escapes resolved; at most `fuel` pieces. -/
def readContent : Nat → Octets → Option (Octets × Octets)
  | 0, _ => none
  | _ + 1, [] => none
  | fuel + 1, b :: rest =>
    if glyph b = '"' then some ([], rest)
    else if glyph b = '\\' then do
      let (c, rest) ← readEscape rest
      let (content, rest) ← readContent fuel rest
      return (String.utf8EncodeChar c ++ content, rest)
    else if b < 0x20 then none
    else do
      let (content, rest) ← readContent fuel rest
      return (b :: content, rest)

/-- A text, after its opening quote. -/
def readText (bs : Octets) : Option (String × Octets) := do
  let (content, rest) ← readContent bs.length bs
  let s ← String.fromUTF8? ⟨content.toArray⟩
  return (s, rest)

/-- The octets after an escape, after its backslash. -/
def skipEscape : Octets → Option Octets
  | [] => none
  | b :: rest =>
    if glyph b = 'u' then (readUnit rest).map (·.2)
    else (letterEscape? b).map fun _ => rest

/-- The octets after a text that nobody wants, after its opening quote; at most `fuel` pieces. -/
def skipContent : Nat → Octets → Option Octets
  | 0, _ => none
  | _ + 1, [] => none
  | fuel + 1, b :: rest =>
    if glyph b = '"' then some rest
    else if glyph b = '\\' then (skipEscape rest).bind (skipContent fuel)
    else if b < 0x20 then none
    else skipContent fuel rest

/-- The octets after a text that nobody wants, after its opening quote. -/
def skipText (bs : Octets) : Option Octets := skipContent bs.length bs

/-! ## §3. Numbers. -/

/-- The octets after at least one digit. -/
def skipDigits : Octets → Option Octets
  | [] => none
  | b :: rest => if isDigit b then some (rest.dropWhile isDigit) else none

/-- The octets after the whole part of a number: a nought, or digits that do not begin with one. -/
def skipWhole : Octets → Option Octets
  | [] => none
  | b :: rest =>
    if glyph b = '0' then (if rest.head?.any isDigit then none else some rest)
    else skipDigits (b :: rest)

/-- The octets after the fraction of a number, if it has one. -/
def skipFraction : Octets → Option Octets
  | [] => some []
  | b :: rest => if glyph b = '.' then skipDigits rest else some (b :: rest)

/-- The octets after a sign, if there is one. -/
def skipSign : Octets → Octets
  | [] => []
  | b :: rest => if glyph b = '+' ∨ glyph b = '-' then rest else b :: rest

/-- The octets after the exponent of a number, if it has one. -/
def skipExponent : Octets → Option Octets
  | [] => some []
  | b :: rest =>
    if glyph b = 'e' ∨ glyph b = 'E' then skipDigits (skipSign rest) else some (b :: rest)

/-- The octets after a number. -/
def skipNumber (bs : Octets) : Option Octets := do
  let unsigned := if bs.head?.any (glyph · = '-') then bs.tail else bs
  let rest ← skipWhole unsigned
  let rest ← skipFraction rest
  skipExponent rest

/-! ## §4. Any value. -/

/-- An open bracket. -/
inductive Frame where
  | array
  | object
  deriving DecidableEq, Repr, Inhabited

/-- The character that closes a bracket. -/
def Frame.closer : Frame → Char
  | array => ']'
  | object => '\x7d'

/-- The octets after a value that is neither an array nor an object. -/
def skipScalar : Octets → Option Octets
  | [] => none
  | b :: rest =>
    match glyph b with
    | 'n' => skipWord ['u', 'l', 'l'] rest
    | 't' => skipWord ['r', 'u', 'e'] rest
    | 'f' => skipWord ['a', 'l', 's', 'e'] rest
    | '"' => skipText rest
    | c => if c = '-' ∨ c.isDigit then skipNumber (b :: rest) else none

/-- The octets after the name of a member and its colon. -/
def skipName (bs : Octets) : Option Octets := do
  let rest ← skipWord ['"'] (skipSpace bs)
  let rest ← skipText rest
  skipWord [':'] (skipSpace rest)

/-- The octets before the value of the next entry of a bracket. -/
def skipToValue (frame : Frame) (bs : Octets) : Option Octets :=
  match frame with
  | .array => some bs
  | .object => skipName bs

/-- What is to come within brackets. -/
inductive Turn where
  /-- A value. -/
  | value
  /-- The first entry, or the end of the bracket. -/
  | first
  /-- A comma and another entry, or the end of the bracket. -/
  | next
  deriving DecidableEq, Repr, Inhabited

/-- The octets after a value and all that the open brackets still ask for, in at most `fuel` steps. -/
def skipNested : Nat → Turn → List Frame → Octets → Option Octets
  | 0, _, _, _ => none
  | fuel + 1, .value, stack, bs =>
    match skipSpace bs with
    | [] => none
    | b :: rest =>
      if glyph b = '[' then skipNested fuel .first (.array :: stack) rest
      else if glyph b = '\x7b' then skipNested fuel .first (.object :: stack) rest
      else match skipScalar (b :: rest) with
        | some rest => skipNested fuel .next stack rest
        | none => none
  | _ + 1, _, [], bs => some bs
  | fuel + 1, turn, frame :: stack, bs =>
    match skipSpace bs with
    | [] => none
    | b :: rest =>
      if glyph b = frame.closer then skipNested fuel .next stack rest
      else
        match (if turn = .first then some (b :: rest) else skipWord [','] (b :: rest)) with
        | none => none
        | some rest =>
          match skipToValue frame rest with
          | some rest => skipNested fuel .value (frame :: stack) rest
          | none => none

/-- The octets after a value of any kind, however deep its brackets. -/
def skipValue (bs : Octets) : Option Octets := skipNested (2 * bs.length + 2) .value [] bs

end SingleFlight.Json
