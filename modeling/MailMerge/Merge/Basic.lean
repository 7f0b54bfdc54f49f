import MailMerge.Conditional.Nodes
import MailMerge.Merge.Leftover
import MailMerge.Section.Expansion

/-!
# Merging a document

Each part of a document goes through the same stages. Conditionals of whole nodes come first, so
that a guarded section without data is gone before it is bound. Sections are expanded next, and
what they produce is left alone from then on. Then the conditionals and the fields of the open
paragraphs are resolved, and at last lone page break markers become page breaks.

When all parts are done, the images are handed over or reported, and so are leftover markers.
-/

namespace MailMerge

/-! ## Page breaks -/

/-- The text is nothing but a page break marker. -/
def Marker.isLonePageBreak (t : Text) : Bool :=
  (Marker.lone? t).any fun m => m.kind = .pageBreak

namespace Node

mutual

/-- The node at a level, with the page break markers in it turned into page breaks. -/
def breakPagesIn : Level → Node → Node
  | .blocks, paragraph p rendered =>
    if Marker.isLonePageBreak p.text then pageBreak p.attributes else paragraph p rendered
  | .blocks, table attributes rows rendered => table attributes (breakPages .rows rows) rendered
  | .rows, row attributes cells rendered => row attributes (breakPages .cells cells) rendered
  | .cells, cell attributes children rendered =>
    cell attributes (breakPages .blocks children) rendered
  | _, n => n

/-- The nodes of a list with the page break markers in them turned into page breaks. -/
def breakPages (level : Level) : List Node → List Node
  | [] => []
  | n :: ns => breakPagesIn level n :: breakPages level ns

end

end Node

/-! ## Parts -/

namespace Part

/-- The paragraph with its fields filled in. -/
def fillIn (settings : Settings) (c : Context) (p : Paragraph) : Merging PendingImage Paragraph :=
  Merging.here do return p.setText (← Field.substitute settings c true p.text)

/-- The nodes after all stages. -/
def mergeNodes (settings : Settings) (c : Context) (nodes : List Node) :
    Merging PendingImage (List Node) := do
  let nodes ← Conditional.resolveNodes c.resolve nodes
  let nodes ← Section.expandBlocks settings c false nodes
  let nodes ← Node.rewriteOpen (Conditional.resolveParagraph settings c.resolve) .blocks 0 nodes
  let nodes ← Node.rewriteOpen (fillIn settings c) .blocks 0 nodes
  return Node.breakPages .blocks nodes

end Part

/-! ## Documents -/

/-- An image marker with the part and the place of its paragraph, as long as there is one. -/
structure PlacedImage where
  request : ImageRequest
  place : Option (Text × Path)

namespace PlacedImage

/-- The image seen from the document that the part with the given nodes is in. -/
def ofPending (name : Text) (nodes : List Node) (image : PendingImage) : PlacedImage where
  request := image.request
  place :=
    (image.place.filter fun path => (Node.at? nodes path).any Node.isParagraph).map (name, ·)

/-- The fields of the images, each once and in order. -/
def fields (images : List PlacedImage) : List Text :=
  (images.map (·.request.field)).eraseDups.mergeSort fun a b => !(b < a)

/-- What is reported about images: nothing, if there are none or if they are taken over. -/
def warnings (settings : Settings) (images : List PlacedImage) : List Warning :=
  if images.isEmpty || settings.handlesImages then [] else [.unhandledImages (fields images)]

end PlacedImage

/-- The part after all stages. -/
def Part.merge (settings : Settings) (c : Context) (p : Part) : Merging PlacedImage Part := do
  let nodes ← (Part.mergeNodes settings c p.nodes).mapImages fun nodes images =>
    images.map (PlacedImage.ofPending p.name nodes)
  return { p with nodes }

/-- What a merge makes of a document. -/
structure Merged where
  document : Document
  warnings : List Warning
  images : List PlacedImage

/-- The markers of the images that are handed over. -/
def Merged.handled (settings : Settings) (m : Merged) : List Text :=
  if settings.handlesImages then m.images.map (·.request.marker) else []

/-- The document merged with the data in a context. -/
def Document.merge (settings : Settings) (c : Context) (d : Document) :
    Except MergeError Merged := do
  let (parts, log) ← (d.parts.mapM (Part.merge settings c) : Merging PlacedImage (List Part))
  let document : Document := { parts }
  return {
    document
    warnings := log.warnings ++ PlacedImage.warnings settings log.images
      ++ Leftover.warnings (document.leftovers false)
    images := log.images }

end MailMerge
