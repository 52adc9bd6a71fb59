/-
  SingleFlight.Text.Quoted — text in quotes, for people who look for what is hidden in it.

  Quotes and backslashes are escaped by a backslash, five control characters
  by a letter or a nought, and every other character that does not show by its
  code point in hexadecimal digits.
-/
import SingleFlight.Text.Printable

namespace SingleFlight.Text

/-- A digit in hexadecimal, in lower case. -/
def hexDigit (n : Nat) : Char :=
  if n < 10 then Char.ofNat (48 + n) else Char.ofNat (87 + n)

/-- The hexadecimal digits of `n`, at most `fuel` of them, without leading noughts, before `rest`. -/
def hexDigits : Nat → Nat → List Char → List Char
  | 0, _, rest => rest
  | fuel + 1, n, rest =>
    let rest := hexDigit (n % 16) :: rest
    if n < 16 then rest else hexDigits fuel (n / 16) rest

/-- A character by its code point. -/
def codePoint (c : Char) : List Char :=
  ['\\', 'u', '{'] ++ hexDigits 6 c.toNat ['}']

/-- A character as it stands inside quotes. -/
def escape (c : Char) : List Char :=
  if c = '"' then ['\\', '"']
  else if c = '\\' then ['\\', '\\']
  else if c = '\n' then ['\\', 'n']
  else if c = '\r' then ['\\', 'r']
  else if c = '\t' then ['\\', 't']
  else if c.toNat = 0 then ['\\', '0']
  else if isShown c then [c]
  else codePoint c

/-- A text in quotes. -/
def quoted (s : String) : String :=
  String.ofList ('"' :: s.toList.flatMap escape ++ ['"'])

end SingleFlight.Text
