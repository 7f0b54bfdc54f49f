import MailMerge.Fault
import MailMerge.Text.Basic

/-!
# Errors that end a merge
-/

namespace MailMerge

/-- Why a section has nothing to repeat over. -/
inductive Lack where
  /-- No value: in the current record, or nowhere. -/
  | noData (recordOnly : Bool)
  | emptyList
  /-- The value is of another kind. -/
  | noList (kind : String)
deriving DecidableEq, Repr

/-- Why a merge has no result. -/
inductive MergeError where
  /-- A field has neither a value nor a default. -/
  | unresolvedField (path : Text)
  /-- A section is bound to nothing that can be repeated. -/
  | missingSection (label : Text) (lack : Lack)
  /-- A conditional that begins with a whole node has no end among the nodes beside it. -/
  | unclosedConditional (condition : Text)
  /-- The conditionals of a text nest deeper than there are passes. -/
  | passLimit (limit : Int) (text : Text)
  | fault (f : Fault)
deriving DecidableEq

/-- The lack in words. -/
def Lack.message : Lack → Text
  | noData true => "no data in the current record"
  | noData false => "no data in the current record or the merge context"
  | emptyList => "an empty list"
  | noList kind => "a non-list value of type " ++ kind.toList

/-- The start of a long text. -/
def snippet (t : Text) : Text :=
  if t.length ≤ 80 then t else t.take 77 ++ "..."

/-- The error in words. -/
def MergeError.message : MergeError → Text
  | unresolvedField path => "Field '" ++ path ++ "' could not be resolved and has no default"
  | missingSection label lack =>
    "Repeating section '" ++ label ++ "' has " ++ lack.message ++ "; guard it with \x7b\x7bIF "
      ++ label ++ "\x7d\x7d if the data is optional"
  | unclosedConditional condition =>
    "Block conditional '\x7b\x7bIF " ++ condition ++ "\x7d\x7d' has no matching \x7b\x7b/IF\x7d\x7d"
  | passLimit limit text =>
    "Inline conditionals still unresolved after " ++ Text.ofInt limit ++ " passes: '"
      ++ snippet text ++ "'"
  | fault _ => []

end MailMerge
