/-!
# AgentContent.Time.Instant

Instants of universal time as fields of the Gregorian calendar, extended to all years that the
range has.

A leap second counts on in the nanoseconds of the second before it.

* `Instant.ofFields?`: an instant from its fields, if the calendar has it.
* `Instant.back?`: the instant a number of minutes earlier, less than a day.
-/

namespace AgentContent

def isLeapYear (year : Int) : Bool :=
  year % 4 = 0 && (year % 100 != 0 || year % 400 = 0)

def daysInMonth (year : Int) (month : Nat) : Nat :=
  match month with
  | 1 | 3 | 5 | 7 | 8 | 10 | 12 => 31
  | 4 | 6 | 9 | 11 => 30
  | 2 => if isLeapYear year then 29 else 28
  | _ => 0

/-- The calendar has the day. -/
def isDay (year : Int) (month day : Nat) : Bool :=
  -262143 ≤ year && year ≤ 262142 && 1 ≤ day && day ≤ daysInMonth year month

/-- The day has the time; nanoseconds beyond a second only after the last second of a minute. -/
def isTime (hour minute second nano : Nat) : Bool :=
  hour < 24 && minute < 60 && second < 60 &&
    (nano < 1000000000 || second = 59 && nano < 2000000000)

structure Instant where
  year : Int
  month : Nat
  day : Nat
  hour : Nat
  minute : Nat
  second : Nat
  nano : Nat
  day_valid : isDay year month day = true
  time_valid : isTime hour minute second nano = true
  deriving DecidableEq

namespace Instant

def ofFields? (year : Int) (month day hour minute second nano : Nat) : Option Instant :=
  if hd : isDay year month day = true then
    if ht : isTime hour minute second nano = true then
      some ⟨year, month, day, hour, minute, second, nano, hd, ht⟩
    else none
  else none

/-- The day after. -/
def nextDay (year : Int) (month day : Nat) : Int × Nat × Nat :=
  if day < daysInMonth year month then (year, month, day + 1)
  else if month < 12 then (year, month + 1, 1)
  else (year + 1, 1, 1)

/-- The day before. -/
def previousDay (year : Int) (month day : Nat) : Int × Nat × Nat :=
  if 1 < day then (year, month, day - 1)
  else if 1 < month then (year, month - 1, daysInMonth year (month - 1))
  else (year - 1, 12, 31)

/-- The instant some minutes earlier, or later when they are negative; less than a day. -/
def back? (t : Instant) (minutes : Int) : Option Instant :=
  let minuteOfDay : Int := (60 * t.hour + t.minute : Nat) - minutes
  let (year, month, day) :=
    if minuteOfDay < 0 then previousDay t.year t.month t.day
    else if 1440 ≤ minuteOfDay then nextDay t.year t.month t.day
    else (t.year, t.month, t.day)
  let within := (minuteOfDay % 1440).toNat
  ofFields? year month day (within / 60) (within % 60) t.second t.nano

/-- The second that is shown: 60 in a leap second. -/
def shownSecond (t : Instant) : Nat :=
  if t.nano < 1000000000 then t.second else t.second + 1

/-- The nanoseconds that are shown. -/
def shownNano (t : Instant) : Nat :=
  t.nano % 1000000000

end Instant

end AgentContent
