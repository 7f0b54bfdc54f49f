import MailMerge.Calendar.Iso
import MailMerge.Fault
import MailMerge.Number.Numeral
import MailMerge.Number.Shortest
import MailMerge.Text.Quoted
import MailMerge.Value.Basic

/-!
# Printed values

The one-line form in which lists and records appear in texts: items in brackets, names and texts
quoted, dates spelled out with their fields. A whole number of too many digits cannot be printed.
-/

namespace MailMerge

/-- The digits of a whole number, unless there are too many. -/
def wholeText (n : Int) : Except Fault Text :=
  if n.natAbs < Nat.pow 10 Numeral.maxDigits then .ok (Text.ofInt n) else .error .longNumeral

/-- Fields in parentheses after a name. -/
def fieldText (name : Text) (fields : List Text) : Text :=
  name ++ "(" ++ Text.join ", " fields ++ ")"

/-- The clock's fields; seconds and their fraction only where needed. -/
def Clock.fields (c : Clock) : List Text :=
  ([c.hour, c.minute]
    ++ (if c.microsecond ≠ 0 then [c.second, c.microsecond]
        else if c.second ≠ 0 then [c.second] else [])).map Text.ofNat

/-- A span of time as days, seconds and microseconds, those that are not zero. -/
def spanText (microseconds : Int) : Text :=
  let days := microseconds / 86400000000
  let rest := microseconds % 86400000000
  let part (name : Text) (n : Int) : List Text := if n = 0 then [] else [name ++ "=" ++ Text.ofInt n]
  let parts := part "days" days ++ part "seconds" (rest / 1000000)
    ++ part "microseconds" (rest % 1000000)
  fieldText "datetime.timedelta" (if parts.isEmpty then ["0"] else parts)

/-- The field that tells the offset, if there is one. -/
def offsetField : Option Int → List Text
  | none => []
  | some 0 => ["tzinfo=datetime.timezone.utc"]
  | some offset => ["tzinfo=" ++ fieldText "datetime.timezone" [spanText offset]]

/-- The date with its fields. -/
def Date.fields (d : Date) : List Text :=
  [d.year, d.month, d.day].map Text.ofNat

namespace Value

mutual

/-- The value on one line. -/
def print : Value → Except Fault Text
  | null => .ok "None"
  | unresolved => .ok "UNRESOLVED"
  | bool b => .ok (if b then "True" else "False")
  | int n => wholeText n
  | float x => .ok x.toText
  | text t => .ok (Text.quoted t)
  | date d => .ok (fieldText "datetime.date" d.fields)
  | dateTime m =>
    .ok (fieldText "datetime.datetime" (m.date.fields ++ m.clock.fields ++ offsetField m.offset))
  | time t => .ok (fieldText "datetime.time" (t.clock.fields ++ offsetField t.offset))
  | list items => do
    let texts ← printItems items
    return '[' :: Text.join ", " texts ++ [']']
  | tuple items => do
    let texts ← printItems items
    return '(' :: Text.join ", " texts ++ if items.length = 1 then ",)" else ")"
  | record entries => do
    let texts ← printEntries entries
    return '{' :: Text.join ", " texts ++ ['}']

/-- The items, each on one line. -/
def printItems : List Value → Except Fault (List Text)
  | [] => .ok []
  | v :: vs => do
    let t ← print v
    let ts ← printItems vs
    return t :: ts

/-- The entries, each as quoted name and value. -/
def printEntries : List (Text × Value) → Except Fault (List Text)
  | [] => .ok []
  | (name, v) :: rest => do
    let t ← print v
    let ts ← printEntries rest
    return (Text.quoted name ++ ": " ++ t) :: ts

end

/-- The value as text: dates in ISO form, a text as it is, everything else on one line. -/
def plain : Value → Except Fault Text
  | text t => .ok t
  | date d => .ok d.toIso
  | dateTime m => .ok (m.toIso ' ')
  | time t => .ok t.toIso
  | v => print v

end Value
end MailMerge
