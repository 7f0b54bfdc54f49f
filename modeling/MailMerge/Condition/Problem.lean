import MailMerge.Condition.Token

/-!
# What is wrong with a condition
-/

namespace MailMerge.Condition

/-- What should have stood at a place. -/
inductive Expected where
  | closeParen
  | fieldName
  | operand
deriving DecidableEq, Repr

/-- Why a text is no condition. -/
inductive Cause where
  | unterminatedText
  | unexpectedCharacter (c : Char)
  | empty
  | unexpected (found : Token)
  /-- Something else should have stood there; nothing found means the end. -/
  | expected (what : Expected) (found : Option Token)
  | tooDeep
deriving DecidableEq

/-- A cause, with the place where it shows. -/
structure Problem where
  cause : Cause
  position : Option Nat := none
deriving DecidableEq

/-- Why a condition has no value: the condition is malformed, or the data is beyond what can be
compared. -/
inductive Failure where
  | problem (p : Problem)
  | fault (f : Fault)
deriving DecidableEq

/-- A malformed condition with its problem. -/
structure Malformed where
  problem : Problem
  condition : Text
deriving DecidableEq

/-- A thing between quotes, in a message. -/
def inQuotes (t : Text) : Text :=
  '\'' :: t ++ ['\'']

/-- What should have stood at a place, in words. -/
def Expected.message : Expected → Text
  | closeParen => "')'"
  | fieldName => "a field name"
  | operand => "a field or value"

/-- The cause in words. -/
def Cause.message : Cause → Text
  | unterminatedText => "Unterminated string"
  | unexpectedCharacter c => "Unexpected character " ++ inQuotes [c]
  | empty => "Empty condition"
  | unexpected found => "Unexpected " ++ inQuotes found.toText
  | expected what found =>
    "Expected " ++ what.message ++ " but found "
      ++ (match found with
        | none => "end of condition".toList
        | some token => inQuotes token.toText)
  | tooDeep => "Condition is nested too deeply"

/-- The problem in words, with its place and the condition. -/
def Malformed.message (m : Malformed) : Text :=
  m.problem.cause.message
    ++ (match m.problem.position with
      | none => []
      | some position => " at position ".toList ++ Text.ofNat position)
    ++ " in condition " ++ inQuotes m.condition

end MailMerge.Condition
