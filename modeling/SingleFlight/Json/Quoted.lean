/-
  SingleFlight.Json.Quoted — texts in their shortest JSON form.

  Quotes, backslashes and control characters are escaped, the common control
  characters by a letter and the others by four hexadecimal digits; everything
  else stands as it is.
-/
import SingleFlight.Text.Quoted

namespace SingleFlight.Json

/-- A control character by four hexadecimal digits. -/
def controlEscape (c : Char) : List Char :=
  ['\\', 'u', '0', '0', Text.hexDigit (c.toNat / 16), Text.hexDigit (c.toNat % 16)]

/-- A character as it stands in a JSON text. -/
def escape (c : Char) : List Char :=
  if c = '"' then ['\\', '"']
  else if c = '\\' then ['\\', '\\']
  else if c = '\n' then ['\\', 'n']
  else if c = '\r' then ['\\', 'r']
  else if c = '\t' then ['\\', 't']
  else if c.toNat = 8 then ['\\', 'b']
  else if c.toNat = 12 then ['\\', 'f']
  else if c.toNat < 32 then controlEscape c
  else [c]

/-- A text in its JSON form. -/
def quoted (s : String) : String :=
  String.ofList ('"' :: s.toList.flatMap escape ++ ['"'])

end SingleFlight.Json
