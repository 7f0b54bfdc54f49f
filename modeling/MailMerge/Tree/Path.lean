import MailMerge.Tree.Basic

/-!
# Places in a tree

A path leads from a list of nodes to a node inside: an index into the list, then indices into the
nodes' children. Here are the places of all paragraphs and of all cells, and what can be done to
the nodes at a place.
-/

namespace MailMerge

/-- A place in a tree. -/
abbrev Path := List Nat

namespace Node

/-- What a list of nodes is: blocks of text, the rows of a table, or the cells of a row. -/
inductive Level where
  | blocks
  | rows
  | cells
deriving DecidableEq, Repr

/-- The nodes inside a node at a level, and their level. Among blocks only tables are entered. -/
def inside : Level → Node → Option (Level × List Node)
  | .blocks, table _ rows _ => some (.rows, rows)
  | .rows, row _ cells _ => some (.cells, cells)
  | .cells, cell _ children _ => some (.blocks, children)
  | _, _ => none

mutual

/-- The paragraphs of a node at a level, with their places; `here` is the node's own place. -/
def paragraphsAt (here : Path) : Level → Node → List (Path × Paragraph)
  | .blocks, paragraph p _ => [(here, p)]
  | .blocks, table _ rows _ => paragraphsFrom here 0 .rows rows
  | .rows, row _ cells _ => paragraphsFrom here 0 .cells cells
  | .cells, cell _ children _ => paragraphsFrom here 0 .blocks children
  | _, _ => []

/-- The paragraphs of the nodes of a list from an index on; `above` is the place of the list. -/
def paragraphsFrom (above : Path) (index : Nat) : Level → List Node → List (Path × Paragraph)
  | _, [] => []
  | level, n :: ns =>
    paragraphsAt (above ++ [index]) level n ++ paragraphsFrom above (index + 1) level ns

end

/-- The paragraphs among blocks and in the tables among them, with their places. -/
def placedParagraphs (nodes : List Node) : List (Path × Paragraph) :=
  paragraphsFrom [] 0 .blocks nodes

/-- The paragraphs among blocks and in the tables among them. -/
def allParagraphs (nodes : List Node) : List Paragraph :=
  (placedParagraphs nodes).map (·.2)

mutual

/-- The places of the cells inside a node at a level. -/
def cellsAt (here : Path) : Level → Node → List Path
  | .blocks, table _ rows _ => cellsFrom here 0 .rows rows
  | .rows, row _ cells _ => cellsFrom here 0 .cells cells
  | .cells, cell _ children _ => here :: cellsFrom here 0 .blocks children
  | _, _ => []

/-- The places of the cells inside the nodes of a list from an index on. -/
def cellsFrom (above : Path) (index : Nat) : Level → List Node → List Path
  | _, [] => []
  | level, n :: ns => cellsAt (above ++ [index]) level n ++ cellsFrom above (index + 1) level ns

end

/-- The places of the cells of the tables among blocks, each before the cells inside it. -/
def placedCells (nodes : List Node) : List Path :=
  cellsFrom [] 0 .blocks nodes

/-- The node at a place. -/
def at? : (nodes : List Node) → Path → Option Node
  | _, [] => none
  | nodes, [i] => nodes[i]?
  | nodes, i :: path =>
    match nodes[i]? with
    | some n => at? n.children path
    | none => none

/-- The nodes with the one at a place changed. -/
def modifyAt (f : Node → Node) : (nodes : List Node) → Path → List Node
  | nodes, [] => nodes
  | nodes, [i] => nodes.modify i f
  | nodes, i :: path => nodes.modify i fun n => n.withChildren (modifyAt f n.children path)

/-- The place after moving the first index up. -/
def shift (count : Nat) : Path → Path
  | [] => []
  | i :: path => (i + count) :: path

end Node
end MailMerge
