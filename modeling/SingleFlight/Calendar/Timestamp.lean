/-
  SingleFlight.Calendar.Timestamp — points in universal time, and their text.

  A timestamp counts seconds from the start of 1970 in the Gregorian calendar
  carried on in both directions.  Its text has the form of RFC 3339: date,
  time of day, as many fraction digits as are needed in groups of three, and Z.
-/

namespace SingleFlight.Calendar

/-- A point in universal time. -/
structure Timestamp where
  /-- Seconds since the start of 1970. -/
  seconds : Int
  /-- Nanoseconds on top; a whole second of them more marks a leap second. -/
  nanos : Nat := 0
  deriving DecidableEq, Repr, Inhabited

/-- A day of the calendar. -/
structure Date where
  year : Int
  month : Nat
  day : Nat
  deriving DecidableEq, Repr, Inhabited

namespace Date

/-- The day that lies this many days after the first of 1970.  Years are counted from March, and
four hundred of them have 146097 days. -/
def ofDays (days : Int) : Date :=
  let shifted := days + 719468
  let era := shifted / 146097
  let dayOfEra := (shifted % 146097).toNat
  let yearOfEra := (dayOfEra - dayOfEra / 1460 + dayOfEra / 36524 - dayOfEra / 146096) / 365
  let dayOfYear := dayOfEra - (365 * yearOfEra + yearOfEra / 4 - yearOfEra / 100)
  let monthFromMarch := (5 * dayOfYear + 2) / 153
  let month := if monthFromMarch < 10 then monthFromMarch + 3 else monthFromMarch - 9
  { year := era * 400 + yearOfEra + (if month ≤ 2 then 1 else 0)
    month
    day := dayOfYear - (153 * monthFromMarch + 2) / 5 + 1 }

end Date

/-- The decimal digits of `n`, with noughts in front up to `width`. -/
def padded (width n : Nat) : String :=
  let ds := toString n
  String.ofList (List.replicate (width - ds.length) '0') ++ ds

/-- The text of a year: four digits, and a sign if it is not among the years 0 to 9999. -/
def yearText (year : Int) : String :=
  if year < 0 then "-" ++ padded 4 year.natAbs
  else if year ≤ 9999 then padded 4 year.natAbs
  else "+" ++ padded 4 year.natAbs

/-- The text of a fraction of a second: none, three, six or nine digits. -/
def fractionText (nanos : Nat) : String :=
  if nanos = 0 then ""
  else if nanos % 1000000 = 0 then "." ++ padded 3 (nanos / 1000000)
  else if nanos % 1000 = 0 then "." ++ padded 6 (nanos / 1000)
  else "." ++ padded 9 nanos

namespace Timestamp

/-- The day of a timestamp. -/
def date (t : Timestamp) : Date := .ofDays (t.seconds / 86400)

/-- The second of the day. -/
def secondOfDay (t : Timestamp) : Nat := (t.seconds % 86400).toNat

/-- The text of a timestamp. -/
def text (t : Timestamp) : String :=
  let date := t.date
  let second := t.secondOfDay
  yearText date.year ++ "-" ++ padded 2 date.month ++ "-" ++ padded 2 date.day
    ++ "T" ++ padded 2 (second / 3600) ++ ":" ++ padded 2 (second / 60 % 60)
    ++ ":" ++ padded 2 (second % 60 + t.nanos / 1000000000)
    ++ fractionText (t.nanos % 1000000000) ++ "Z"

end Timestamp

end SingleFlight.Calendar
