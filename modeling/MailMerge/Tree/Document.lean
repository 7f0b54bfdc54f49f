import MailMerge.Tree.Path

/-!
# Documents

A document has parts, such as its body and its page headers. Each part has a name and nodes.
-/

namespace MailMerge

/-- A part of a document. -/
structure Part where
  name : Text
  nodes : List Node

/-- The parts of a document, in the order in which they are worked on. -/
structure Document where
  parts : List Part

namespace Document

/-- The parts with one more: it takes the place of the part of its name, or else comes last. -/
def put (parts : List Part) (part : Part) : List Part :=
  if parts.any fun p => p.name = part.name then
    parts.map fun p => if p.name = part.name then part else p
  else
    parts ++ [part]

/-- The document of the given parts. Of two with the same name the later one counts. -/
def ofParts (parts : List Part) : Document where
  parts := parts.foldl put []

/-- The text of all parts. -/
def text (d : Document) : Text :=
  Text.unlines (d.parts.map fun p => Node.bodyText p.nodes)

/-- The paragraphs of all parts with the names of the parts. -/
def paragraphs (d : Document) : List (Text × Paragraph) :=
  d.parts.flatMap fun p => (Node.allParagraphs p.nodes).map fun q => (p.name, q)

end Document
end MailMerge
