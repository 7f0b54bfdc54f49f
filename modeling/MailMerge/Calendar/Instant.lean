import MailMerge.Calendar.Basic
import MailMerge.Number.Binary64

/-!
# Instants as numbers

Moments as seconds since 1970-01-01 in universal time, and back. A moment without an offset is
taken to be in universal time.
-/

namespace MailMerge.DateTime

/-- Microseconds from the start of day 0 to 1970-01-01. -/
def epoch : Int := 719163 * dayLength

/-- Seconds since 1970 of a moment without an offset: whole seconds and the fraction are rounded
apart, and their sum again. -/
def localSeconds (m : DateTime) : Binary64 :=
  let whole := (m.localMicroseconds - epoch) / 1000000
  let fraction := Binary64.nearest false m.clock.microsecond 1000000
  Binary64.addFinite (Binary64.nearest (whole < 0) whole.natAbs 1) fraction

/-- Seconds since 1970 of a moment with an offset, rounded once. -/
def universalSeconds (m : DateTime) : Binary64 :=
  let total := m.universalMicroseconds - epoch
  Binary64.nearest (total < 0) total.natAbs 1000000

/-- Milliseconds since 1970; none on the first day of the calendar, for a moment without an
offset, because the day before is looked at too. -/
def milliseconds? (m : DateTime) : Option Binary64 :=
  match m.offset with
  | some _ => some (m.universalSeconds.scale 1000 1)
  | none => if m.date.ordinal ≤ 1 then none else some (m.localSeconds.scale 1000 1)

/-- The microseconds of a fraction of a second: the product with a million is rounded to a
value, and that half to even to an integer. -/
def fractionMicroseconds (units : Nat) : Nat :=
  match (Binary64.finite false units).scale 1000000 1 with
  | .finite _ product => Binary64.divHalfEven product Binary64.one
  | _ => 0

/-- The moment at a number of seconds since 1970; none outside the calendar. -/
def ofSeconds? : Binary64 → Option DateTime
  | .finite negative units =>
    let whole : Int := (units / Binary64.one : Nat)
    let fraction : Int := fractionMicroseconds (units % Binary64.one)
    let total := whole * 1000000 + fraction
    ofMicroseconds? (epoch + if negative then -total else total)
  | _ => none

end MailMerge.DateTime
