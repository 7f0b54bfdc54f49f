import MailMerge.Docx.Defect
import MailMerge.Text.Class
import MailMerge.Text.WordChar

/-!
# Putting blocks back into a part

The content of a part is exchanged in the text of the part, so that all that stands around it
stays: of a main part the content of the body, of other parts that of the root.
-/

namespace MailMerge.Docx

/-- A tag at its place in a text. -/
structure FoundTag where
  before : Text
  label : Text
  /-- What stands between the label and the end of the tag. -/
  inside : Text
  after : Text
deriving DecidableEq, Repr

namespace FoundTag

/-- The tag of one of the labels at the start of a text. -/
def atStart? (labels : List Text) (t : Text) : Option FoundTag :=
  labels.findSome? fun label => do
    let rest ← Text.dropStart? ('<' :: label) t
    if rest.head?.any Text.isWordChar then none
    else
      let (inside, after) ← Text.cutFirst? ['>'] rest
      return { before := [], label, inside, after }

/-- The first tag of one of the labels in a text. -/
def find? (labels : List Text) : Text → Option FoundTag
  | [] => none
  | c :: t =>
    match atStart? labels (c :: t) with
    | some tag => some tag
    | none => (find? labels t).map fun tag => { tag with before := c :: tag.before }

/-- The tag has no content and needs no end tag. -/
def isEmpty (tag : FoundTag) : Bool :=
  tag.inside.getLast? = some '/'

/-- The tag as it is written. -/
def text (tag : FoundTag) : Text :=
  '<' :: tag.label ++ tag.inside ++ ['>']

/-- The tag as a start tag, if it is an empty one. -/
def opened (tag : FoundTag) : Text :=
  Text.trimEnd ('<' :: tag.label ++ tag.inside.dropLast) ++ ['>']

/-- The end tag that belongs to the tag. -/
def closing (tag : FoundTag) : Text :=
  ['<', '/'] ++ tag.label ++ ['>']

end FoundTag

/-- The text from the last occurrence of a part on, or its last character if there is none. -/
def fromLast (part t : Text) : Text :=
  match Text.cutLast? part t with
  | some (_, after) => part ++ after
  | none => t.drop (t.length - 1)

/-- The label of the body of a main part. -/
def bodyLabel : Text := "w:body"

/-- The labels of the roots of page headers and page footers. -/
def rootLabels : List Text := ["w:hdr", "w:ftr"]

/-- The part with other content in it. -/
def splice (xml inner : Text) : Except Defect Text :=
  match FoundTag.find? [bodyLabel] xml with
  | some tag => .ok (tag.before ++ tag.text ++ inner ++ fromLast tag.closing xml)
  | none =>
    match FoundTag.find? rootLabels xml with
    | none => .error .noRoot
    | some tag =>
      if tag.isEmpty then
        .ok (tag.before ++ tag.opened ++ inner ++ tag.closing ++ tag.after)
      else
        .ok (tag.before ++ tag.text ++ inner ++ fromLast tag.closing xml)

end MailMerge.Docx
