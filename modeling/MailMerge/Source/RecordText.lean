import MailMerge.Text.Class
import MailMerge.Text.Utf8
import MailMerge.Value.JsonReading

/-!
# Records from JSON

A record can be typed in or come as a file. No text and no file stand for an empty record.
-/

namespace MailMerge.Source

/-- Why there is no record. -/
inductive RecordProblem where
  /-- The file is no text. -/
  | noText
  | json (p : Json.Problem)
  /-- What was typed in has no names. -/
  | typedNoRecord (label : Text)
  /-- What the file holds has no names. -/
  | fileNoRecord (name : Text) (kind : String)
deriving DecidableEq, Repr

/-- The problem in words, as far as there are any. -/
def RecordProblem.message : RecordProblem → Text
  | typedNoRecord label => label ++ " must be a JSON object".toList
  | fileNoRecord name kind =>
    name ++ " must contain a JSON object, not ".toList ++ kind.toList
  | noText => []
  | json _ => []

/-- The record of a JSON text. -/
def readRecord (t : Text) (problem : Value → RecordProblem) : Except RecordProblem Record := do
  match ← (Json.read t).mapError .json with
  | .record entries => return entries
  | v => throw (problem v)

/-- The record that was typed in under a label. -/
def typedRecord (label t : Text) : Except RecordProblem Record :=
  if Text.allBlank t then .ok []
  else readRecord t fun _ => .typedNoRecord label

/-- The record in a file of a name. -/
def fileRecord (name : Text) : Option ByteArray → Except RecordProblem Record
  | none => .ok []
  | some bytes => do
    let t ← (Text.ofBytes? bytes).elim (.error .noText) .ok
    readRecord t fun v => .fileNoRecord name v.kindName

end MailMerge.Source
