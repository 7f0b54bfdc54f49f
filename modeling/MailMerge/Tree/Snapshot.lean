import MailMerge.Tree.Basic

/-!
# Snapshots

What is kept of a row, a cell or a paragraph so that it can be built again with other texts: its
properties, its text, and the style of its first run of text. A cell keeps one style only, that of
its first paragraph.
-/

namespace MailMerge

/-- A cell's text and properties. -/
structure CellSnapshot where
  text : Text
  attributes : Text := []
  paragraphAttributes : Text := []
  runStyle : Text := []
deriving DecidableEq, Repr

/-- A row's properties and its cells. -/
structure RowSnapshot where
  attributes : Text := []
  cells : List CellSnapshot := []
deriving DecidableEq, Repr

/-- A paragraph's text and properties. -/
structure ParagraphSnapshot where
  text : Text
  attributes : Text := []
  runStyle : Text := []
deriving DecidableEq, Repr

namespace Paragraph

/-- What is kept of the paragraph. -/
def capture (p : Paragraph) : ParagraphSnapshot :=
  { text := p.text, attributes := p.attributes, runStyle := p.runStyle }

end Paragraph

namespace Node

/-- What is kept of the node as a cell. -/
def captureCell (n : Node) : CellSnapshot :=
  let first := (paragraphsOf n.children).headD {}
  { text := n.text
    attributes := n.attributes
    paragraphAttributes := first.attributes
    runStyle := first.runStyle }

/-- What is kept of the node as a row. -/
def captureRow (n : Node) : RowSnapshot :=
  { attributes := n.attributes, cells := n.children.map captureCell }

/-- The row with texts written into its cells, where they differ. Cells without a text stay. -/
def writeRow (n : Node) (texts : List Text) : Node :=
  n.withChildren (writeCells n.children texts)
where
  /-- The cells with texts written into them. -/
  writeCells : List Node → List Text → List Node
    | c :: cells, t :: ts => (if c.text = t then c else c.setText t) :: writeCells cells ts
    | cells, [] => cells
    | [], _ => []

end Node

/-- A new cell with a text, a paragraph for each line. -/
def CellSnapshot.build (s : CellSnapshot) (t : Text) : Node :=
  .cell s.attributes <| (Text.lines t).map fun line =>
    .paragraph (Paragraph.ofText line s.paragraphAttributes s.runStyle)

/-- A new row with texts in its cells; a cell without a text is left out. -/
def RowSnapshot.build (s : RowSnapshot) (texts : List Text) : Node :=
  .row s.attributes ((s.cells.zip texts).map fun (cell, t) => cell.build t)

/-- A new paragraph with a text. -/
def ParagraphSnapshot.build (s : ParagraphSnapshot) (t : Text) : Paragraph :=
  Paragraph.ofText t s.attributes s.runStyle

/-! ## Any node -/

/-- What is kept of a node. -/
inductive Snapshot where
  | row (s : RowSnapshot)
  | cell (s : CellSnapshot)
  | paragraph (s : ParagraphSnapshot)

/-- What is kept of the node, if it can be built again. -/
def Node.capture? : Node → Option Snapshot
  | .paragraph p _ => some (.paragraph p.capture)
  | .row attributes cells rendered => some (.row (Node.row attributes cells rendered).captureRow)
  | .cell attributes nodes rendered =>
    some (.cell (Node.cell attributes nodes rendered).captureCell)
  | _ => none

/-- A new node with texts, of which a cell and a paragraph take the first. -/
def Snapshot.build (texts : List Text) : Snapshot → Node
  | .row s => s.build texts
  | .cell s => s.build (texts.headD [])
  | .paragraph s => .paragraph (s.build (texts.headD []))

end MailMerge
