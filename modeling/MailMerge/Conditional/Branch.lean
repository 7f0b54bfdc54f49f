import MailMerge.Condition.Evaluation
import MailMerge.Merge.Warning

/-!
# Choosing a branch

Both kinds of conditionals, those inside a text and those over whole nodes, choose the first branch
whose condition holds.
-/

namespace MailMerge.Conditional

/-- The first item that has no condition or whose condition holds, with the warnings about
malformed conditions before it. -/
def selectFirst {α : Type} (fields : Condition.Fields) (condition : α → Option Text) :
    List α → Except Fault (Option α × List Warning)
  | [] => .ok (none, [])
  | b :: rest =>
    match condition b with
    | none => .ok (some b, [])
    | some text => do
      let (holds, problem) ← Condition.holdsOrReports fields text
      if holds then
        return (some b, [])
      else
        let (selected, warnings) ← selectFirst fields condition rest
        return (selected, (problem.map Warning.falseCondition).toList ++ warnings)

end MailMerge.Conditional
