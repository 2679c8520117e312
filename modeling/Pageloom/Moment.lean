import Pageloom.Text.Edit

/-!
# Dates and times

The dates and times that a settings or style file may hold: a date, a time of
day, and a date with a time, the last with or without an offset from universal
time. They are only ever shown, in a plain form and in the form of messages.

## Main definitions

* `Pageloom.Moment` -- a date, a time, or both
* `Pageloom.Moment.text` -- the plain form
* `Pageloom.Moment.quoted` -- the form of messages
-/

namespace Pageloom

/-- A day of the calendar. -/
structure Day where
  year : Nat
  month : Nat
  day : Nat
  deriving DecidableEq

/-- A time of day, to the microsecond. -/
structure Clock where
  hour : Nat
  minute : Nat
  second : Nat
  micro : Nat
  deriving DecidableEq

/-- A date, a time of day, or both with an optional offset in minutes. -/
inductive Moment
  | date (d : Day)
  | time (c : Clock)
  | both (d : Day) (c : Clock) (offset : Option Int)
  deriving DecidableEq

namespace Day

/-- Whether a year of the calendar has a 29th of February. -/
def isLeap (year : Nat) : Bool := year % 4 = 0 && (year % 100 ≠ 0 || year % 400 = 0)

/-- The number of days of a month. -/
def monthLength (year month : Nat) : Nat :=
  if month = 2 then if isLeap year then 29 else 28
  else if month = 4 || month = 6 || month = 9 || month = 11 then 30 else 31

/-- Whether the calendar has this day. -/
def valid (d : Day) : Bool :=
  1 ≤ d.year && 1 ≤ d.month && d.month ≤ 12 && 1 ≤ d.day && d.day ≤ monthLength d.year d.month

end Day

/-- A number with zeros in front, to a width. -/
def Moment.padded (width n : Nat) : String :=
  let ds := Nat.toDigits 10 n
  String.ofList (List.replicate (width - ds.length) '0' ++ ds)

namespace Day

/-- A day as year, month and day. -/
def text (d : Day) : String :=
  Moment.padded 4 d.year ++ "-" ++ Moment.padded 2 d.month ++ "-" ++ Moment.padded 2 d.day

end Day

namespace Clock

/-- A time of day; microseconds only where there are any. -/
def text (c : Clock) : String :=
  Moment.padded 2 c.hour ++ ":" ++ Moment.padded 2 c.minute ++ ":" ++ Moment.padded 2 c.second ++
    (if c.micro = 0 then "" else "." ++ Moment.padded 6 c.micro)

/-- The parts of a time of day, without the last ones that are zero. -/
def parts (c : Clock) : List Nat :=
  if c.micro ≠ 0 then [c.hour, c.minute, c.second, c.micro]
  else if c.second ≠ 0 then [c.hour, c.minute, c.second]
  else [c.hour, c.minute]

end Clock

namespace Moment

/-- An offset as hours and minutes with a sign. -/
def offsetText (minutes : Int) : String :=
  let n := minutes.natAbs
  (if minutes < 0 then "-" else "+") ++ padded 2 (n / 60) ++ ":" ++ padded 2 (n % 60)

/-- An offset in the form of messages: whole days count down below zero. -/
def offsetQuoted (minutes : Int) : String :=
  if minutes = 0 then "datetime.timezone.utc"
  else if minutes < 0 then
    "datetime.timezone(datetime.timedelta(days=-1, seconds=" ++
      Int.repr (86400 + minutes * 60) ++ "))"
  else "datetime.timezone(datetime.timedelta(seconds=" ++ Int.repr (minutes * 60) ++ "))"

/-- The plain form. -/
def text : Moment → String
  | date d => d.text
  | time c => c.text
  | both d c offset => d.text ++ " " ++ c.text ++ (offset.map offsetText).getD ""

/-- The form of messages. -/
def quoted : Moment → String
  | date d => "datetime.date(" ++ Text.join ", " ([d.year, d.month, d.day].map Nat.repr) ++ ")"
  | time c => "datetime.time(" ++ Text.join ", " (c.parts.map Nat.repr) ++ ")"
  | both d c offset =>
    "datetime.datetime(" ++
      Text.join ", " (([d.year, d.month, d.day] ++ c.parts).map Nat.repr ++
        (offset.map fun o => "tzinfo=" ++ offsetQuoted o).toList) ++ ")"

/-- The name of the kind of a moment. -/
def kindName : Moment → String
  | date _ => "date"
  | time _ => "time"
  | both .. => "datetime"

end Moment

end Pageloom
