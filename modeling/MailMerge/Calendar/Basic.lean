/-!
# Dates and times

Calendar dates of the years 1 to 9999, times of day to the microsecond, and both together, with or
without an offset from universal time. Days are counted from 0001-01-01, which is day 1.
-/

namespace MailMerge

/-- A day of the calendar. -/
structure Date where
  year : Nat
  month : Nat
  day : Nat
deriving DecidableEq, Repr

/-- What a clock shows. -/
structure Clock where
  hour : Nat := 0
  minute : Nat := 0
  second : Nat := 0
  microsecond : Nat := 0
deriving DecidableEq, Repr

/-- A time of day; an offset is in microseconds east of universal time. -/
structure TimeOfDay where
  clock : Clock
  offset : Option Int := none
deriving DecidableEq, Repr

/-- A time on a day; an offset is in microseconds east of universal time. -/
structure DateTime where
  date : Date
  clock : Clock := {}
  offset : Option Int := none
deriving DecidableEq, Repr

namespace Date

/-- The year has a 29th of February. -/
def isLeap (year : Nat) : Bool :=
  year % 4 == 0 && (year % 100 != 0 || year % 400 == 0)

/-- The number of days in each month of a year. -/
def monthLengths (year : Nat) : List Nat :=
  [31, if isLeap year then 29 else 28, 31, 30, 31, 30, 31, 31, 30, 31, 30, 31]

/-- The date, if there is one. -/
def make? (year month day : Nat) : Option Date :=
  if 1 ≤ year ∧ year ≤ 9999 ∧ 1 ≤ month ∧ month ≤ 12 ∧ 1 ≤ day
      ∧ day ≤ (monthLengths year).getD (month - 1) 0 then
    some ⟨year, month, day⟩
  else
    none

/-- The days before the year. -/
def daysBeforeYear (year : Nat) : Nat :=
  let y := year - 1
  y * 365 + y / 4 - y / 100 + y / 400

/-- The number of the day, counted from 0001-01-01 as 1. -/
def ordinal (d : Date) : Nat :=
  daysBeforeYear d.year + ((monthLengths d.year).take (d.month - 1)).foldl (· + ·) 0 + d.day

/-- Month and day of the given day of a year, which counts from 0. -/
def monthDay : (lengths : List Nat) → (month rest : Nat) → Nat × Nat
  | [], month, rest => (month, rest + 1)
  | length :: lengths, month, rest =>
    if rest < length then (month, rest + 1) else monthDay lengths (month + 1) (rest - length)

/-- The date with the given number; none before the year 1 and after the year 9999. -/
def ofOrdinal? (n : Int) : Option Date :=
  if n < 1 then none
  else
    let n := (n - 1).toNat
    let cycles := n / 146097
    let n := n % 146097
    let centuries := min 3 (n / 36524)
    let n := n - centuries * 36524
    let leaps := n / 1461
    let n := n % 1461
    let years := min 3 (n / 365)
    let n := n - years * 365
    let year := cycles * 400 + centuries * 100 + leaps * 4 + years + 1
    if year ≤ 9999 then
      let (month, day) := monthDay (monthLengths year) 1 n
      some ⟨year, month, day⟩
    else
      none

/-- The day of the week, from 0 for Monday. -/
def weekday (d : Date) : Nat :=
  (d.ordinal + 6) % 7

/-- The English name of the month. -/
def monthName (d : Date) : String :=
  ["January", "February", "March", "April", "May", "June", "July", "August", "September",
    "October", "November", "December"].getD (d.month - 1) ""

end Date

namespace Clock

/-- The hands stand where a clock can show them. -/
def isValid (c : Clock) : Bool :=
  c.hour ≤ 23 && c.minute ≤ 59 && c.second ≤ 59 && c.microsecond ≤ 999999

/-- Microseconds since midnight. -/
def microseconds (c : Clock) : Nat :=
  ((c.hour * 60 + c.minute) * 60 + c.second) * 1000000 + c.microsecond

/-- The clock at a number of microseconds after midnight. -/
def ofMicroseconds (n : Nat) : Clock :=
  { hour := n / 3600000000
    minute := n / 60000000 % 60
    second := n / 1000000 % 60
    microsecond := n % 1000000 }

end Clock

namespace DateTime

/-- Microseconds in a day. -/
def dayLength : Int := 86400000000

/-- Microseconds since the start of day 0, by the moment's own clock. -/
def localMicroseconds (m : DateTime) : Int :=
  m.date.ordinal * dayLength + m.clock.microseconds

/-- The moment without an offset at a number of microseconds after the start of day 0. -/
def ofMicroseconds? (n : Int) : Option DateTime :=
  (Date.ofOrdinal? (n / dayLength)).map fun date =>
    { date, clock := Clock.ofMicroseconds (n % dayLength).toNat }

/-- Microseconds since the start of day 0 in universal time, the moment's offset taken off. -/
def universalMicroseconds (m : DateTime) : Int :=
  m.localMicroseconds - m.offset.getD 0

/-- The moment by the clock of universal time, without an offset; none outside the calendar. -/
def toUniversal? (m : DateTime) : Option DateTime :=
  ofMicroseconds? m.universalMicroseconds

/-- Two moments are equal if both have an offset and are the same instant, or neither has one and
they show the same. -/
def same (a b : DateTime) : Bool :=
  a.offset.isSome == b.offset.isSome && a.universalMicroseconds == b.universalMicroseconds

end DateTime

namespace TimeOfDay

/-- Two times are equal if both have an offset or neither has, and they show the same once the
offsets are taken off. -/
def same (a b : TimeOfDay) : Bool :=
  a.offset.isSome == b.offset.isSome
    && (a.clock.microseconds : Int) - a.offset.getD 0
        == (b.clock.microseconds : Int) - b.offset.getD 0

end TimeOfDay
end MailMerge
