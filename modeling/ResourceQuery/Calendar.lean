import ResourceQuery.Number.Rounding

/-! # Dates and times of day

A wall clock has a day of the proleptic Gregorian calendar and a time with nanoseconds. A leap
second is kept as the second before it with a billion nanoseconds or more. It is the sixtieth of its
minute unless a zone is some seconds off, in which case it may follow any second. A date-time is a wall
clock with what is known of its zone.
-/
namespace ResourceQuery

def isLeapYear (year : Int) : Bool := year % 4 == 0 && (year % 100 != 0 || year % 400 == 0)

def daysInMonth (year : Int) (month : Nat) : Nat :=
  if month = 2 then (if isLeapYear year then 29 else 28)
  else if month = 4 ∨ month = 6 ∨ month = 9 ∨ month = 11 then 30 else 31

structure WallClock where
  year : Int
  month : Nat
  day : Nat
  hour : Nat
  minute : Nat
  second : Nat
  nano : Nat
  year_range : -262143 ≤ year ∧ year ≤ 262142
  month_range : 1 ≤ month ∧ month ≤ 12
  day_range : 1 ≤ day ∧ day ≤ daysInMonth year month
  hour_lt : hour < 24
  minute_lt : minute < 60
  second_lt : second < 60
  nano_lt : nano < 2000000000
  deriving DecidableEq

namespace WallClock

def ofFields? (year : Int) (month day hour minute second nano : Nat) : Option WallClock :=
  if h : (-262143 ≤ year ∧ year ≤ 262142) ∧ (1 ≤ month ∧ month ≤ 12) ∧
      (1 ≤ day ∧ day ≤ daysInMonth year month) ∧ hour < 24 ∧ minute < 60 ∧ second < 60 ∧
      nano < 2000000000 then
    some ⟨year, month, day, hour, minute, second, nano,
      h.1, h.2.1, h.2.2.1, h.2.2.2.1, h.2.2.2.2.1, h.2.2.2.2.2.1, h.2.2.2.2.2.2⟩
  else none

/-- Days from the first of March of year 0, counted in years that begin in March. -/
def dayNumber (c : WallClock) : Int :=
  let marchYear := if c.month ≤ 2 then c.year - 1 else c.year
  let marchMonth : Int := (c.month + 9 : Nat) % 12
  marchYear * 365 + marchYear / 4 - marchYear / 100 + marchYear / 400
    + (marchMonth * 153 + 2) / 5 + c.day - 1

def secondNumber (c : WallClock) : Int :=
  c.dayNumber * 86400 + c.hour * 3600 + c.minute * 60 + c.second

/-- Earlier days and times come first; a leap second follows the second that it is kept in. -/
def order (a b : WallClock) : Ordering :=
  (compare a.year b.year).then <| (compare a.month b.month).then <| (compare a.day b.day).then <|
    (compare a.hour b.hour).then <| (compare a.minute b.minute).then <|
      (compare a.second b.second).then <| compare a.nano b.nano

/-- Four digits, and a sign where these do not say it all. -/
def yearText (year : Int) : String :=
  if 0 ≤ year ∧ year ≤ 9999 then Number.zeroPadded 4 year.natAbs
  else (if year < 0 then "-" else "+") ++ Number.zeroPadded 4 year.natAbs

/-- The fraction in milli-, micro- or nanoseconds, whichever is the coarsest exact unit. -/
def fractionText (nano : Nat) : String :=
  if nano = 0 then ""
  else if nano % 1000000 = 0 then "." ++ Number.zeroPadded 3 (nano / 1000000)
  else if nano % 1000 = 0 then "." ++ Number.zeroPadded 6 (nano / 1000)
  else "." ++ Number.zeroPadded 9 nano

def dateText (c : WallClock) : String :=
  yearText c.year ++ "-" ++ Number.zeroPadded 2 c.month ++ "-" ++ Number.zeroPadded 2 c.day

def timeText (c : WallClock) : String :=
  Number.zeroPadded 2 c.hour ++ ":" ++ Number.zeroPadded 2 c.minute ++ ":" ++
    Number.zeroPadded 2 (c.second + c.nano / 1000000000) ++ fractionText (c.nano % 1000000000)

def text (separator : String) (c : WallClock) : String := c.dateText ++ separator ++ c.timeText

end WallClock

/-- A zone's distance from UTC in seconds, eastward positive, less than a day. -/
structure UtcOffset where
  seconds : Int
  range : -86400 < seconds ∧ seconds < 86400
  deriving DecidableEq

def UtcOffset.ofSeconds? (seconds : Int) : Option UtcOffset :=
  if h : -86400 < seconds ∧ seconds < 86400 then some ⟨seconds, h⟩ else none

/-- Sign, hours and minutes; a half minute counts as a minute. -/
def UtcOffset.text (o : UtcOffset) : String :=
  let minutes := (o.seconds.natAbs + 30) / 60
  (if o.seconds < 0 then "-" else "+") ++ Number.zeroPadded 2 (minutes / 60) ++ ":" ++
    Number.zeroPadded 2 (minutes % 60)

inductive Zone
  | unspecified
  | localTime
  | utc
  | offset (distance : UtcOffset)
  deriving DecidableEq

structure DateTime where
  clock : WallClock
  zone : Zone
  deriving DecidableEq

namespace DateTime

def instantOrder (a : WallClock) (p : UtcOffset) (b : WallClock) (q : UtcOffset) : Ordering :=
  (compare (a.secondNumber - p.seconds) (b.secondNumber - q.seconds)).then (compare a.nano b.nano)

/-- By instant if both offsets are known, and otherwise by what the clocks show. -/
def order (a b : DateTime) : Ordering :=
  match a.zone, b.zone with
  | .offset p, .offset q => instantOrder a.clock p b.clock q
  | _, _ => a.clock.order b.clock

/-- The same instant, or the same clock in the same kind of zone. -/
def same (a b : DateTime) : Bool :=
  match a.zone, b.zone with
  | .offset p, .offset q => instantOrder a.clock p b.clock q == .eq
  | p, q => decide (p = q) && decide (a.clock = b.clock)

end DateTime
end ResourceQuery
