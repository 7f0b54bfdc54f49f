import MailMerge.Calendar.Instant
import MailMerge.Number.Numeral
import MailMerge.Text.Class
import MailMerge.Value.Equality
import MailMerge.Value.Print

/-!
# Values in conditions

How a condition reads a value: as a number, as a text, as true or blank, and when it takes two
values for equal although one is a number and the other its numeral.
-/

namespace MailMerge.Value

/-- The value as a number, for the ordering operators. What is absent counts as zero, a moment as
its milliseconds since 1970, and what is no number as the value that is no number. -/
def toNumber : Value → Except Fault Binary64
  | null => .ok (Binary64.ofNat 0)
  | unresolved => .ok (Binary64.ofNat 0)
  | bool b => .ok (Binary64.ofNat (if b then 1 else 0))
  | int n => (Binary64.ofInt? n).elim (.error .largeNumber) .ok
  | float x => .ok x
  | dateTime m => m.milliseconds?.elim (.error .beforeCalendar) .ok
  | date d => (DateTime.milliseconds? { date := d }).elim (.error .beforeCalendar) .ok
  | text t =>
    if Text.allBlank t then .ok (Binary64.ofNat 0) else .ok ((Numeral.decimal? (Text.trim t)).getD .nan)
  | _ => .ok .nan

/-- The value as a text, for the text operators and for comparing with dates. -/
def toText : Value → Except Fault Text
  | null => .ok []
  | unresolved => .ok []
  | bool b => .ok (if b then "true" else "false")
  | float x => if x.isWhole then wholeText x.truncate else .ok x.toText
  | dateTime m => .ok (m.toIso 'T')
  | v => v.plain

/-- The value counts as true: it is there, and is neither false nor the empty text. -/
def isTruthy : Value → Bool
  | null => false
  | unresolved => false
  | bool b => b
  | text t => !t.isEmpty
  | _ => true

/-- The value is absent, or a text without ink. -/
def isBlank : Value → Bool
  | null => true
  | unresolved => true
  | text t => Text.allBlank t
  | _ => false

/-- The value is a date or a moment. -/
def isDated : Value → Bool
  | date _ => true
  | dateTime _ => true
  | _ => false

/-- A text is the numeral of a number. -/
def numeralEquals (t : Text) (n : Number) : Bool :=
  if Text.allBlank t then n.equal (.whole 0)
  else n.equal (.float ((Numeral.decimal? (Text.trim t)).getD .nan))

/-- The values are equal for a condition: absent only with absent, a number with its numeral, a
date with its text, and otherwise as values. -/
def looseEquals (left right : Value) : Except Fault Bool :=
  match left.isMissing, right.isMissing with
  | true, true => .ok true
  | true, false => .ok false
  | false, true => .ok false
  | false, false =>
    match left.number?, right.number?, left, right with
    | some n, some m, _, _ => .ok (n.equal m)
    | some n, none, _, text t => .ok (numeralEquals t n)
    | none, some n, text t, _ => .ok (numeralEquals t n)
    | _, _, _, _ =>
      if left.isDated || right.isDated then do
        let l ← (unbool left).toText
        let r ← (unbool right).toText
        return l == r
      else
        .ok (left.equal right)
where
  /-- A truth value as the number that it counts as. -/
  unbool : Value → Value
    | bool b => int (if b then 1 else 0)
    | v => v

end MailMerge.Value
