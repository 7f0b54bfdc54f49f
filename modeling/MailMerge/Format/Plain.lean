import MailMerge.Format.Moment
import MailMerge.Value.Json

/-!
# Values without a format

How a value is written into a document when nothing else is asked for.
-/

namespace MailMerge

/-- A truth value in words. -/
def yesOrNo (b : Bool) : Text :=
  if b then "Yes" else "No"

namespace Value

mutual

/-- The value as plain text: nothing for null, words for truth values, whole numbers without a
point, long dates, a clock only where it is not midnight, lists with commas, records as JSON. -/
def toPlain : Value → Except Fault Text
  | null => .ok []
  | bool b => .ok (yesOrNo b)
  | float x => if x.isWhole then wholeText x.truncate else .ok x.toText
  | dateTime m =>
    .ok (if m.clock.hour ≠ 0 ∨ m.clock.minute ≠ 0 ∨ m.clock.second ≠ 0 then m.long
      else m.date.long)
  | date d => .ok d.long
  | time t => .ok t.clock.twelveHour
  | list items => do return Text.join ", " (← plainItems items)
  | tuple items => do return Text.join ", " (← plainItems items)
  | record entries => toJson 0 (record entries)
  | int n => wholeText n
  | text t => .ok t
  | unresolved => .ok "UNRESOLVED"

/-- The items as plain texts. -/
def plainItems : List Value → Except Fault (List Text)
  | [] => .ok []
  | v :: vs => do
    let t ← toPlain v
    let ts ← plainItems vs
    return t :: ts

end

end Value
end MailMerge
