import MailMerge.Condition.Token

/-!
# Conditions

What a condition says, once it is read: comparisons and tests of operands, joined by `AND`, `OR`
and `NOT`.
-/

namespace MailMerge

namespace Condition

/-- A side of a comparison. -/
inductive Operand where
  | literal (v : Value)
  | field (path : Text)

end Condition

/-- A condition. -/
inductive Condition where
  | compare (op : Comparison) (left right : Condition.Operand)
  | test (op : TextTest) (left right : Condition.Operand)
  | isBlank (path : Text)
  | and (left right : Condition)
  | or (left right : Condition)
  | not (operand : Condition)
  /-- A field alone, which holds if its value is truthy. -/
  | truthy (path : Text)
  /-- A value alone, which holds if it is truthy. -/
  | literal (v : Value)

namespace Condition

/-- A number as a value. -/
def numberValue : Number → Value
  | .whole n => .int n
  | .float x => .float x

/-- The operand that a token stands for. -/
def Operand.ofToken? : Token → Option Operand
  | .name path => some (.field path)
  | .number n => some (.literal (numberValue n))
  | .string t => some (.literal (.text t))
  | .bool b => some (.literal (.bool b))
  | .null => some (.literal .null)
  | _ => none

/-- An operand that stands alone. -/
def ofOperand : Operand → Condition
  | .field path => .truthy path
  | .literal v => .literal v

end Condition
end MailMerge
