/-!
# Timestamps as text

A moment is a number of seconds since the start of 1970. Its text is a date, a time of day and
the offset of the clock, as in `2024-03-01T12:00:00Z`; the calendar is the Gregorian one, carried
on into the past and the future.

## Main definitions

* `Timestamp.dayNumber`, `Timestamp.ofDayNumber`: the calendar
* `Timestamp.read?`: the moment that a text names
* `Timestamp.render?`: the text of a moment
-/

namespace Michelson.Timestamp

/-- A date of the calendar. -/
structure Date where
  year : Int
  month : Nat
  day : Nat
  deriving DecidableEq, Repr

/-- Whether February has a twenty-ninth day. -/
def isLeapYear (year : Int) : Bool := year % 4 = 0 && (year % 100 ≠ 0 || year % 400 = 0)

/-- The lengths of the months of a year. -/
def monthLengths (year : Int) : List Nat :=
  [31, if isLeapYear year then 29 else 28, 31, 30, 31, 30, 31, 31, 30, 31, 30, 31]

/-- The number of days from the first of January of year 1 to that of another year. -/
def daysBeforeYear (year : Int) : Int :=
  let past := year - 1
  365 * past + past / 4 - past / 100 + past / 400

/-- The number of days of a year before one of its months. -/
def daysBeforeMonth (year : Int) (month : Nat) : Nat :=
  ((monthLengths year).take (month - 1)).foldl (fun days length => days + length) 0

/-- The number of days from the first of January 1970 to a date. -/
def dayNumber (date : Date) : Int :=
  daysBeforeYear date.year - daysBeforeYear 1970
    + daysBeforeMonth date.year date.month + (date.day - 1 : Nat)

/-- The month and the day of a day counted from zero at the start of its month or of an earlier
one. -/
def monthAndDay (month : Nat) : List Nat → Nat → Nat × Nat
  | length :: lengths, day =>
    if day < length then (month, day + 1) else monthAndDay (month + 1) lengths (day - length)
  | [], day => (month, day + 1)

/-- The date so many days after the first of January 1970. -/
def ofDayNumber (number : Int) : Date :=
  let days := number + daysBeforeYear 1970
  let inEra := days % 146097
  let centuries := min (inEra / 36524) 3
  let inCentury := inEra - 36524 * centuries
  let inCycle := inCentury % 1461
  let years := min (inCycle / 365) 3
  let year := 400 * (days / 146097) + 100 * centuries + 4 * (inCentury / 1461) + years + 1
  let (month, day) := monthAndDay 1 (monthLengths year) (inCycle - 365 * years).toNat
  ⟨year, month, day⟩

/-- Whether a date is one of the calendar. -/
def Date.isValid (date : Date) : Bool :=
  1 ≤ date.day && date.day ≤ (monthLengths date.year).getD (date.month - 1) 0 && 1 ≤ date.month

/-- The number that so many digits at the front of a text spell, and what follows them. -/
def digits? : Nat → Nat → List Char → Option (Nat × List Char)
  | 0, value, cs => some (value, cs)
  | count + 1, value, c :: cs =>
    if c.isDigit then digits? count (10 * value + (c.toNat - '0'.toNat)) cs else none
  | _ + 1, _, [] => none

/-- What follows a character at the front of a text. -/
def after? (allowed : Char → Bool) : List Char → Option (List Char)
  | c :: cs => if allowed c then some cs else none
  | [] => none

/-- What follows a fraction of a second at the front of a text, if there is one. -/
def skipFraction? : List Char → Option (List Char)
  | '.' :: c :: cs => if c.isDigit then some (cs.dropWhile Char.isDigit) else none
  | '.' :: [] => none
  | cs => some cs

/-- The offset of the clock in seconds that makes up a whole text. -/
def offset? : List Char → Option Int
  | ['Z'] | ['z'] => some 0
  | sign :: cs => do
    let (hours, cs) ← digits? 2 0 cs
    let cs ← after? (· == ':') cs
    let (minutes, cs) ← digits? 2 0 cs
    let seconds : Int := 3600 * hours + 60 * minutes
    if hours < 24 && minutes < 60 && cs.isEmpty then
      if sign = '+' then some seconds
      else if sign = '-' || sign = '−' then some (-seconds)
      else none
    else none
  | [] => none

/-- **The moment that a text names**: `YYYY-MM-DD`, a `T` or a space, `HH:MM:SS` with or without
a fraction, and the offset of the clock. A sixtieth second counts as the one before it, and
fractions are dropped. -/
def read? (text : String) : Option Int := do
  let (year, cs) ← digits? 4 0 text.toList
  let cs ← after? (· == '-') cs
  let (month, cs) ← digits? 2 0 cs
  let cs ← after? (· == '-') cs
  let (day, cs) ← digits? 2 0 cs
  let cs ← after? (fun c => c == 'T' || c == 't' || c == ' ') cs
  let (hour, cs) ← digits? 2 0 cs
  let cs ← after? (· == ':') cs
  let (minute, cs) ← digits? 2 0 cs
  let cs ← after? (· == ':') cs
  let (second, cs) ← digits? 2 0 cs
  let cs ← skipFraction? cs
  let offset ← offset? cs
  let date : Date := ⟨year, month, day⟩
  if date.isValid && hour < 24 && minute < 60 && second ≤ 60 then
    return 86400 * dayNumber date + 3600 * hour + 60 * minute + min second 59 - offset
  else none

/-- A number with at least so many digits. -/
def padded (width n : Nat) : String :=
  let ds := Nat.toDigits 10 n
  String.ofList (List.replicate (width - ds.length) '0' ++ ds)

/-- A year with four digits, and with a sign outside 0 to 9999. -/
def yearText (year : Int) : String :=
  if year < 0 then "-" ++ padded 4 year.natAbs
  else if year ≤ 9999 then padded 4 year.natAbs
  else "+" ++ padded 4 year.natAbs

/-- The first and the last second that have a text. -/
def range : Int × Int := (-8334601228800, 8210266876799)

/-- **The text of a moment**, unless it is out of range. The clock has no offset. -/
def render? (seconds : Int) : Option String :=
  if range.1 ≤ seconds && seconds ≤ range.2 then
    let date := ofDayNumber (seconds / 86400)
    let time := (seconds % 86400).toNat
    some (yearText date.year ++ "-" ++ padded 2 date.month ++ "-" ++ padded 2 date.day ++ "T"
      ++ padded 2 (time / 3600) ++ ":" ++ padded 2 (time / 60 % 60) ++ ":"
      ++ padded 2 (time % 60) ++ "Z")
  else none

end Michelson.Timestamp
