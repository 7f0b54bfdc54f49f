import MailMerge.Calendar.Basic
import MailMerge.Text.Basic

/-!
# ISO forms of dates and times

Writing gives the extended form: `2024-01-05T10:30:00.000001+01:00`, the fraction and the offset
only where there are any. Reading takes the extended and the basic form, week dates, any single
character between date and time, one to three clock fields, a fraction after point or comma of
which six digits count, and an offset of the same shape as a clock.
-/

namespace MailMerge

/-! ## Writing -/

/-- The date as year, month and day. -/
def Date.toIso (d : Date) : Text :=
  Text.padded 4 d.year ++ "-" ++ Text.padded 2 d.month ++ "-" ++ Text.padded 2 d.day

/-- The clock with seconds, and with six places of them where they have a fraction. -/
def Clock.toIso (c : Clock) : Text :=
  Text.padded 2 c.hour ++ ":" ++ Text.padded 2 c.minute ++ ":" ++ Text.padded 2 c.second
    ++ if c.microsecond = 0 then [] else '.' :: Text.padded 6 c.microsecond

/-- The offset as sign, hours and minutes, and seconds where there are any. -/
def offsetToIso : Option Int → Text
  | none => []
  | some offset =>
    let c := Clock.ofMicroseconds offset.natAbs
    (if offset < 0 then '-' else '+') :: Text.padded 2 c.hour ++ ":" ++ Text.padded 2 c.minute
      ++ (if c.second = 0 ∧ c.microsecond = 0 then [] else ':' :: Text.padded 2 c.second)
      ++ if c.microsecond = 0 then [] else '.' :: Text.padded 6 c.microsecond

/-- The time of day with its offset. -/
def TimeOfDay.toIso (t : TimeOfDay) : Text :=
  t.clock.toIso ++ offsetToIso t.offset

/-- The moment, with `separator` between date and time. -/
def DateTime.toIso (m : DateTime) (separator : Char) : Text :=
  m.date.toIso ++ separator :: m.clock.toIso ++ offsetToIso m.offset

/-! ## Reading -/

namespace Iso

/-- A number of exactly `count` ASCII digits, and what follows. -/
def digits? : (count : Nat) → Text → Option (Nat × Text)
  | 0, t => some (0, t)
  | _ + 1, [] => none
  | count + 1, c :: t =>
    if c.isDigit then
      (digits? count t).map fun (n, rest) => ((c.toNat - 48) * Nat.pow 10 count + n, rest)
    else
      none

/-- The first day of the first week of a year: the Monday of the week with 4 January. -/
def firstMonday (year : Nat) : Int :=
  let start : Date := ⟨year, 1, 1⟩
  let monday : Int := (start.ordinal : Int) - start.weekday
  if 3 < start.weekday then monday + 7 else monday

/-- A year that starts on a Thursday, or a leap year that starts on a Wednesday, has 53 weeks. -/
def hasLongYear (year : Nat) : Bool :=
  let first := (Date.mk year 1 1).weekday
  first == 3 || (first == 2 && Date.isLeap year)

/-- The date of a day, from 1 for Monday, in a week of a year. -/
def weekDate? (year week day : Nat) : Option Date :=
  if 1 ≤ year ∧ 1 ≤ week ∧ (week ≤ 52 ∨ (week = 53 ∧ hasLongYear year)) ∧ 1 ≤ day ∧ day ≤ 7 then
    Date.ofOrdinal? (firstMonday year + (week - 1) * 7 + (day - 1))
  else
    none

/-- A text that is a date in full. -/
def date? (t : Text) : Option Date := do
  let (year, t) ← digits? 4 t
  let (extended, t) := match t with
    | '-' :: rest => (true, rest)
    | t => (false, t)
  match t with
  | 'W' :: t =>
    let (week, t) ← digits? 2 t
    match t with
    | [] => weekDate? year week 1
    | c :: rest =>
      if extended ∧ c ≠ '-' then none
      else
        let (day, _) ← digits? 1 (if extended then rest else t)
        weekDate? year week day
  | t =>
    let (month, t) ← digits? 2 t
    let t ← if extended then Text.dropStart? ['-'] t else some t
    let (day, _) ← digits? 2 t
    Date.make? year month day

/-- How many characters of a text of date and time the date takes. In a basic week date the parity
of the digits tells whether the day of the week is given; in an extended one a digit after the
hyphen and one more character is read as part of an hour. -/
def dateLength (t : Text) : Option Nat :=
  let at_ (i : Nat) : Char := t.getD i '\x00'
  if t.length = 7 then some 7
  else if at_ 4 = '-' then
    if at_ 5 = 'W' then
      if at_ 8 = '-' then
        if t.length = 9 then none
        else if 10 < t.length ∧ (at_ 10).isDigit then some 8
        else some 10
      else some 8
    else some 10
  else if at_ 4 = 'W' then
    let stop := 7 + ((t.drop 7).takeWhile Char.isDigit).length
    if stop < 9 then some stop
    else if stop % 2 = 0 then some 7
    else some 8
  else some 8

/-- A fraction of a second: six digits count, further ones are passed over. The flag tells that
nothing else follows. -/
def fraction? (t : Text) : Option (Nat × Bool) :=
  let count := min 6 t.length
  (digits? count t).map fun (n, rest) =>
    (n * Nat.pow 10 (6 - count), (rest.dropWhile Char.isDigit).isEmpty)

/-- The fields of a clock that are still to come, as their numbers in order, the fraction, and
whether the text was used up. `colons` tells how fields are set apart, once the first is read. -/
def fields? : (count : Nat) → (colons : Option Bool) → Text → Option (List Nat × Nat × Bool)
  | 0, _, t => (fraction? t).map fun (n, complete) => ([], n, complete)
  | count + 1, colons, t => do
    let (n, t) ← digits? 2 t
    match t with
    | [] => some ([n], 0, true)
    | [_] => some ([n], 0, false)
    | c :: rest =>
      let extended := colons.getD (c == ':')
      let next ←
        if extended ∧ c = ':' then
          fields? count (some true) rest
        else if c = '.' ∨ c = ',' then
          (fraction? rest).map fun (n, complete) => ([], n, complete)
        else if extended then none
        else fields? count (some false) t
      some (n :: next.1, next.2)

/-- A clock of one to three fields, and whether the text was used up. -/
def clock? (t : Text) : Option (Clock × Bool) :=
  (fields? 3 none t).map fun (numbers, microsecond, complete) =>
    (⟨numbers.getD 0 0, numbers.getD 1 0, numbers.getD 2 0, microsecond⟩, complete)

/-- An offset, of less than a day, after its sign; less than a second counts as none. -/
def offset? (negative : Bool) (t : Text) : Option Int := do
  let (c, complete) ← clock? t
  let offset := if c.microseconds < 1000000 then 0 else c.microseconds
  if complete ∧ (offset : Int) < DateTime.dayLength then
    some (if negative then -(offset : Int) else offset)
  else
    none

/-- A time of day with an optional offset. -/
def time? (t : Text) : Option TimeOfDay := do
  let isZone (c : Char) : Bool := c == '+' || c == '-' || c == 'Z'
  let (clock, complete) ← clock? (t.takeWhile (!isZone ·))
  let offset ←
    match t.dropWhile (!isZone ·) with
    | [] => if complete then some none else none
    | 'Z' :: rest => if rest.isEmpty then some (some 0) else none
    | sign :: rest => (offset? (sign == '-') rest).map some
  if clock.isValid then some ⟨clock, offset⟩ else none

/-- A date, alone or with one character and a time after it. -/
def dateTime? (t : Text) : Option DateTime := do
  let length ← dateLength t
  let date ← date? (t.take length)
  match t.drop length with
  | [] => some { date }
  | _ :: rest =>
    let time ← time? rest
    some { date, clock := time.clock, offset := time.offset }

end Iso
end MailMerge
