import MailMerge.Marker.Scan
import MailMerge.Merge.Warning
import MailMerge.Tree.Document

/-!
# Leftover markers

Markers that no stage of a merge has used up. They are no errors: each kind of marker that is left
makes one warning, which quotes the first of them.
-/

namespace MailMerge

/-- A marker left in a part of a document. -/
structure Leftover where
  part : Text
  kind : Marker.Kind
  text : Text
deriving DecidableEq

namespace Leftover

/-- How many markers of a kind a warning quotes. -/
def quotedCount : Nat := 3

/-- The kinds of markers that are looked for. -/
def isSought (withImages : Bool) (kind : Marker.Kind) : Bool :=
  withImages || kind != .image

/-- A marker found in a part. -/
def ofMarker (part : Text) (m : Marker) : Leftover :=
  { part, kind := m.kind, text := m.text }

/-- The markers of a paragraph. A text without opening braces is not searched. -/
def ofParagraph (withImages : Bool) (part : Text) (p : Paragraph) : List Leftover :=
  if Text.contains Marker.opening p.text then
    (Marker.scanFor (isSought withImages) p.text).map (ofMarker part)
  else
    []

/-- The kinds of the markers, in the order in which they first stand there. -/
def kinds (ls : List Leftover) : List Marker.Kind :=
  (ls.map (·.kind)).eraseDups

/-- The texts of the markers of a kind. -/
def textsOf (kind : Marker.Kind) (ls : List Leftover) : List Text :=
  (ls.filter fun l => l.kind = kind).map (·.text)

/-- One warning for each kind of marker. Images are no reason to warn. -/
def warnings (ls : List Leftover) : List Warning :=
  ((kinds ls).filter (· != .image)).map fun kind =>
    .leftover kind ((textsOf kind ls).take quotedCount)

end Leftover

/-- The markers in the paragraphs of a document, images only if asked for. -/
def Document.leftovers (d : Document) (withImages : Bool) : List Leftover :=
  d.paragraphs.flatMap fun (name, p) => Leftover.ofParagraph withImages name p

/-- What is found in a document after a merge. -/
structure Validation where
  leftovers : List Leftover
  warnings : List Warning

/-- Nothing is left over. -/
def Validation.isClean (v : Validation) : Bool :=
  v.leftovers.isEmpty

/-- The markers in a document, images only if asked for, and what there is to report about them. -/
def Document.validate (d : Document) (withImages : Bool) : Validation :=
  let leftovers := d.leftovers withImages
  { leftovers, warnings := Leftover.warnings leftovers }

end MailMerge
