import MailMerge.Condition.Reading
import MailMerge.Value.Coercion

/-!
# Whether a condition holds

Conditions are evaluated against a function that gives the values of fields. A malformed condition
has no value; for a template it counts as false and is reported (`holdsOrReports`).
-/

namespace MailMerge.Condition

/-- The values of fields by their paths. -/
abbrev Fields := Text → Except Fault Value

/-- The value of an operand; what is not there counts as null. -/
def Operand.value (fields : Fields) : Operand → Except Fault Value
  | literal v => .ok v
  | field path => do
    match ← fields path with
    | .unresolved => return .null
    | v => return v

/-- The order of two numbers satisfies the comparison. -/
def admits (op : Comparison) (order : Ordering) : Bool :=
  match op with
  | .equal => order == .eq
  | .unequal => order != .eq
  | .greater => order == .gt
  | .less => order == .lt
  | .greaterOrEqual => order != .lt
  | .lessOrEqual => order != .gt

/-- Whether two values compare as asked: for equality as values, else as numbers. No order holds
of what is no number. -/
def compareValues (op : Comparison) (left right : Value) : Except Fault Bool :=
  match op with
  | .equal => left.looseEquals right
  | .unequal => return !(← left.looseEquals right)
  | op => do
    let l ← left.toNumber
    let r ← right.toNumber
    return (l.compare? r).any (admits op)

/-- Whether two texts pass a test. -/
def testTexts (op : TextTest) (left right : Text) : Bool :=
  match op with
  | .contains => Text.contains right left
  | .startsWith => Text.startsWith right left
  | .endsWith => Text.endsWith right left
  | .equalCaseless => Text.lower left == Text.lower right

/-- Whether the condition holds. Each level of nesting takes two of the given levels. -/
def holds (fields : Fields) : (levels : Nat) → Condition → Except Failure Bool
  | levels, .or left right =>
    if levels < 2 then .error tooDeep
    else do if ← holds fields (levels - 2) left then return true else holds fields (levels - 2) right
  | levels, .and left right =>
    if levels < 2 then .error tooDeep
    else do if ← holds fields (levels - 2) left then holds fields (levels - 2) right else return false
  | levels, .not operand =>
    if levels < 2 then .error tooDeep
    else return !(← holds fields (levels - 2) operand)
  | _, .compare op left right => lift do
    let l ← left.value fields
    let r ← right.value fields
    compareValues op l r
  | _, .test op left right => lift do
    let l ← (← left.value fields).toText
    let r ← (← right.value fields).toText
    return testTexts op l r
  | _, .isBlank path => lift do return (← (Operand.field path).value fields).isBlank
  | _, .truthy path => lift do return (← (Operand.field path).value fields).isTruthy
  | _, .literal v => .ok v.isTruthy
where
  tooDeep : Failure := .problem { cause := .tooDeep }
  lift (r : Except Fault Bool) : Except Failure Bool := r.mapError .fault

/-- Why the text of a condition has no value. -/
inductive Trouble where
  | malformed (m : Malformed)
  | fault (f : Fault)

/-- The trouble that a failure makes with the text of a condition. -/
def Failure.toTrouble (text : Text) : Failure → Trouble
  | .problem p => .malformed { problem := p, condition := text }
  | .fault f => .fault f

/-- Whether the condition that a text stands for holds. Problems of reading quote the trimmed text,
problems of evaluation the text as it is. -/
def evaluate (fields : Fields) (text : Text) : Except Trouble Bool := do
  let trimmed := Text.trim text
  let condition ← (parse trimmed).mapError (Failure.toTrouble trimmed)
  (holds fields levels condition).mapError (Failure.toTrouble text)

/-- Whether the condition holds, where a malformed one does not and is handed back. -/
def holdsOrReports (fields : Fields) (text : Text) : Except Fault (Bool × Option Malformed) :=
  match evaluate fields text with
  | .ok b => .ok (b, none)
  | .error (.malformed m) => .ok (false, some m)
  | .error (.fault f) => .error f

end MailMerge.Condition
