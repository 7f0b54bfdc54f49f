import MailMerge.Docx.Defect
import MailMerge.Text.Class
import MailMerge.Tree.Basic
import MailMerge.Xml.Writing

/-!
# Writing blocks

The nodes of a document as XML, with the label `w` for word-processing markup. Newlines in a run
become line breaks and tabs become tab elements. A cell ends with a paragraph: if its last node is
another block, an empty paragraph follows.
-/

namespace MailMerge.Docx

/-! ## Runs -/

/-- A part of a run without newlines and tabs; nothing for an empty one. -/
def writeChunk (t : Text) : Text :=
  if t = [] then []
  else "<w:t xml:space=\"preserve\">".toList ++ Xml.escape t ++ "</w:t>".toList

/-- A line of a run. -/
def writeLine (t : Text) : Text :=
  Text.join "<w:tab/>".toList ((Text.splitOn '\t' t).map writeChunk)

/-- A run of text; nothing for an empty text. -/
def writeTextRun (t style : Text) : Text :=
  if t = [] then []
  else
    "<w:r>".toList ++ style ++ Text.join "<w:br/>".toList ((Text.lines t).map writeLine)
      ++ "</w:r>".toList

/-- A run: raw content as it is. -/
def writeRun (r : Run) : Text :=
  r.raw.getD (writeTextRun r.text r.style)

/-! ## Blocks -/

/-- An element of word-processing markup. -/
def element (label content : Text) : Text :=
  "<w:".toList ++ label ++ '>' :: content ++ "</w:".toList ++ label ++ ['>']

/-- A paragraph. -/
def writeParagraph (p : Paragraph) : Text :=
  element ['p'] (p.attributes ++ p.runs.flatMap writeRun)

/-- A paragraph with nothing but a page break. -/
def writePageBreak (attributes : Text) : Text :=
  element ['p'] (attributes ++ "<w:r><w:br w:type=\"page\"/></w:r>".toList)

/-- The empty paragraph that ends a cell. -/
def emptyParagraph : Text := "<w:p/>"

/-- The node is written as a paragraph. -/
def isWrittenAsParagraph : Node → Bool
  | .paragraph .. => true
  | .pageBreak _ => true
  | _ => false

/-- What has to follow the nodes of a cell. -/
def cellEnd (nodes : List Node) : Text :=
  if nodes.getLast?.any isWrittenAsParagraph then [] else emptyParagraph

/-- The name of the kind of node. -/
def kindName : Node → String
  | .paragraph .. => "Paragraph"
  | .table .. => "Table"
  | .row .. => "Row"
  | .cell .. => "Cell"
  | .pageBreak _ => "PageBreak"
  | .verbatim _ => "OpaqueNode"

mutual

/-- A node among blocks. Rows and cells have no place there. -/
def writeBlock : Node → Except Defect Text
  | .paragraph p _ => .ok (writeParagraph p)
  | .table attributes rows _ => do
    return element "tbl" (attributes ++ (← writeRows rows))
  | .row .. => .error (.misplaced "Row")
  | .cell .. => .error (.misplaced "Cell")
  | .pageBreak attributes => .ok (writePageBreak attributes)
  | .verbatim xml => .ok xml

/-- The nodes one after the other. -/
def writeBlocks : List Node → Except Defect Text
  | [] => .ok []
  | n :: ns => do
    let t ← writeBlock n
    return t ++ (← writeBlocks ns)

/-- The rows of a table. -/
def writeRows : List Node → Except Defect Text
  | [] => .ok []
  | .row attributes cells _ :: ns => do
    let t ← writeCells cells
    return element "tr" (attributes ++ t) ++ (← writeRows ns)
  | n :: _ => .error (.misplaced (kindName n))

/-- The cells of a row. -/
def writeCells : List Node → Except Defect Text
  | [] => .ok []
  | .cell attributes nodes _ :: ns => do
    let t ← writeBlocks nodes
    return element "tc" (attributes ++ t ++ cellEnd nodes) ++ (← writeCells ns)
  | n :: _ => .error (.misplaced (kindName n))

end

end MailMerge.Docx
