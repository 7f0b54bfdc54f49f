import MailMerge.Field.Substitution
import MailMerge.Tree.Path

/-!
# Images and their paragraphs

An image marker found while a text was rendered belongs to a paragraph of the nodes that were made
from the text: the first one in which the marker stands. Its place is a path from the list of nodes
at hand; when lists are put together, the paths move along.
-/

namespace MailMerge

/-- An image marker with the place of its paragraph, if it has one. -/
structure PendingImage where
  request : ImageRequest
  place : Option Path

namespace PendingImage

/-- The image seen from the list that holds the node it was placed in, at an index. -/
def under (index : Nat) (image : PendingImage) : PendingImage :=
  { image with place := image.place.map (index :: ·) }

/-- The image seen from a longer list, with more nodes in front. -/
def shift (count : Nat) (image : PendingImage) : PendingImage :=
  { image with place := image.place.map (Node.shift count) }

/-- The image of a request, placed among paragraphs: in the first that holds the marker, or else in
the first of all. -/
def claim (paragraphs : List (Path × Paragraph)) (request : ImageRequest) : PendingImage where
  request
  place :=
    ((paragraphs.find? fun p => Text.contains request.marker p.2.text) <|> paragraphs.head?).map
      (·.1)

end PendingImage

namespace Merging

variable {α : Type}

/-- The step with its image requests placed among the paragraphs of its result. -/
def claimed (x : Merging ImageRequest α) (paragraphs : α → List (Path × Paragraph)) :
    Merging PendingImage α :=
  x.mapImages fun a requests => requests.map (PendingImage.claim (paragraphs a))

/-- The step with its image requests placed in the one paragraph that it makes. -/
def here (x : Merging ImageRequest Paragraph) : Merging PendingImage Paragraph :=
  x.mapImages fun _ requests => requests.map fun request => ⟨request, some []⟩

/-- The step with its images seen from a list in which the result stands at an index. -/
def under (index : Nat) (x : Merging PendingImage α) : Merging PendingImage α :=
  x.mapImages fun _ images => images.map (PendingImage.under index)

/-- The step with its images seen from a list with more nodes in front. -/
def shifted (count : Nat) (x : Merging PendingImage α) : Merging PendingImage α :=
  x.mapImages fun _ images => images.map (PendingImage.shift count)

/-- Two steps that make nodes, one list after the other. -/
def followedBy (x y : Merging PendingImage (List Node)) : Merging PendingImage (List Node) := do
  let first ← x
  let second ← y.shifted first.length
  return first ++ second

/-- A step for each item of a list, each making one node. -/
def forEach {β : Type} (f : β → Merging PendingImage α) (items : List β) :
    Merging PendingImage (List α) :=
  items.zipIdx.mapM fun (x, i) => (f x).under i

end Merging
end MailMerge
