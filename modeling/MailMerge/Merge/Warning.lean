import MailMerge.Condition.Problem
import MailMerge.Marker.Basic
import MailMerge.Text.Quoted

/-!
# Warnings

What a merge reports without giving up. Two warnings with the same message are one.
-/

namespace MailMerge

/-- Something in a template or its data that a merge reports. -/
inductive Warning where
  /-- A field asks for a format that there is not. -/
  | unknownFormat (name path : Text)
  /-- A condition is malformed and counts as false. -/
  | falseCondition (m : Condition.Malformed)
  /-- A node that ends a conditional was dropped, for none had begun. -/
  | unopenedConditional
  /-- A section has a start and no end. -/
  | unclosedSection (name : Text)
  /-- A section of table rows has a start and no end. -/
  | unclosedRows (label : Text)
  /-- A section has more records than expected. -/
  | manyRecords (label : Text) (count : Nat) (limit : Int)
  /-- Images are left in place, for nothing takes them over. -/
  | unhandledImages (fields : List Text)
  /-- Markers of one kind are left in the merged document. -/
  | leftover (kind : Marker.Kind) (texts : List Text)
deriving DecidableEq

namespace Warning

/-- What leftover markers of a kind are called. -/
def leftoverMessage : Marker.Kind → String
  | .ifStart => "Unclosed conditional left in output: "
  | .elseIf => "ELSEIF outside a conditional left in output: "
  | .otherwise => "ELSE outside a conditional left in output: "
  | .ifEnd => "Unmatched \x7b\x7b/IF\x7d\x7d left in output: "
  | .sectionStart => "Unclosed repeating section left in output: "
  | .sectionEnd => "Unmatched section closer left in output: "
  | .pageBreak => "Page break marker not alone in its paragraph: "
  | .field => "Unfilled placeholders found: "
  | .image => ""

/-- The warning in words. -/
def message : Warning → Text
  | unknownFormat name path =>
    "Unknown format '" ++ name ++ "' for field '" ++ path ++ "'; using plain text"
  | falseCondition m => "Condition treated as false: " ++ m.message
  | unopenedConditional =>
    "Removed a \x7b\x7b/IF\x7d\x7d block marker with no matching \x7b\x7bIF\x7d\x7d"
  | unclosedSection name => "Section '" ++ name ++ "' has no closing marker; left as is"
  | unclosedRows label =>
    "Section '" ++ label ++ "' has no closing marker; repeating its first row only"
  | manyRecords label count limit =>
    "Section '" ++ label ++ "' has " ++ Text.ofNat count ++ " records, more than the "
      ++ Text.ofInt limit ++ " expected"
  | unhandledImages fields =>
    "No image handler configured; image markers left in place for: " ++ Text.quotedList fields
  | leftover kind texts => (leftoverMessage kind).toList ++ Text.quotedList texts

/-- The warnings' messages in order, each once. -/
def messages (ws : List Warning) : List Text :=
  (ws.map message).eraseDups

end Warning
end MailMerge
