import MailMerge.Calendar.Instant
import MailMerge.Calendar.Iso
import MailMerge.Fault
import MailMerge.Number.Numeral
import MailMerge.Text.Class
import MailMerge.Value.Basic

/-!
# Values as moments

A value is taken for a moment if it is a date, a number of milliseconds since 1970, or a text in
one of three forms: month/day/year, a long numeral of milliseconds, or the ISO form. A moment with
an offset, when it comes from a text, is moved to universal time.

Here are also the English forms in which moments are written.
-/

namespace MailMerge

/-- One or two digits before a slash, and what follows the slash. -/
def beforeSlash? (t : Text) : Option (Nat × Text) := do
  let (number, rest) ← Text.cutFirst? ['/'] t
  let digits ← number.mapM Text.digitValue?
  if digits.length = 1 ∨ digits.length = 2 then some (Numeral.ofDigits digits, rest) else none

/-- The numbers of a text of the form month/day/year, with one or two digits, the same, and
four. -/
def slashedDate? (t : Text) : Option (Nat × Nat × Nat) := do
  let (month, rest) ← beforeSlash? t
  let (day, rest) ← beforeSlash? rest
  let year ← rest.mapM Text.digitValue?
  if year.length = 4 then some (month, day, Numeral.ofDigits year) else none

/-- The shortest numeral that counts as milliseconds. -/
def minEpochDigits : Nat := 11

/-- An ISO text; a final `Z` is the offset zero. -/
def isoMoment? (t : Text) : Option DateTime :=
  if t.getLast? = some 'Z' then Iso.dateTime? (t.dropLast ++ "+00:00") else Iso.dateTime? t

/-- A moment without its offset, moved to universal time if it has one. -/
def settle (m : DateTime) : Except Fault DateTime :=
  match m.offset with
  | none => .ok m
  | some _ => m.toUniversal?.elim (.error .outsideCalendar) .ok

/-- The moment that a trimmed text stands for. -/
def textMoment? (t : Text) : Except Fault (Option DateTime) :=
  match slashedDate? t with
  | some (month, day, year) => .ok ((Date.make? year month day).map fun date => { date })
  | none =>
    if minEpochDigits ≤ t.length ∧ t.all Text.isDecimalDigit then
      let n := Numeral.ofDigits (t.filterMap Text.digitValue?)
      if t.length ≤ Numeral.maxDigits then .ok (DateTime.ofSeconds? (.nearest false n 1000))
      else .error .longNumeral
    else
      match isoMoment? t with
      | none => .ok none
      | some m => some <$> settle m

/-- The moment that a value stands for. -/
def Value.moment? : Value → Except Fault (Option DateTime)
  | .dateTime m => .ok (some m)
  | .date d => .ok (some { date := d })
  | .int n => .ok (DateTime.ofSeconds? (.nearest (n < 0) n.natAbs 1000))
  | .float x => .ok (DateTime.ofSeconds? (x.scale 1 1000))
  | .text t => textMoment? (Text.trim t)
  | _ => .ok none

/-- The date as month, day and year. -/
def Date.long (d : Date) : Text :=
  d.monthName.toList ++ " " ++ Text.ofNat d.day ++ ", " ++ Text.ofNat d.year

/-- The clock with twelve hours. -/
def Clock.twelveHour (c : Clock) : Text :=
  let hour := if c.hour % 12 = 0 then 12 else c.hour % 12
  let half : Text := if c.hour < 12 then " AM" else " PM"
  Text.ofNat hour ++ ":" ++ Text.padded 2 c.minute ++ half

/-- The date and the clock. -/
def DateTime.long (m : DateTime) : Text :=
  m.date.long ++ " " ++ m.clock.twelveHour

end MailMerge
