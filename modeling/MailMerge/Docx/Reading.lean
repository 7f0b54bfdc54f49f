import MailMerge.Docx.Declaration
import MailMerge.Docx.Defect
import MailMerge.Docx.Tag
import MailMerge.Tree.Document
import MailMerge.Xml.Reading
import MailMerge.Xml.Writing

/-!
# Reading parts

A part's XML as nodes. Paragraphs, tables, rows, cells and page breaks are read; content controls
are opened; everything else becomes a verbatim node. Properties, and runs that hold more than
text, are kept as the XML that they are written back with.

**`runs`**: a run becomes one run of text, or one raw run if it holds anything but text.

**`blocks`**: the nodes of a list of elements, by recursion on the elements.
-/

namespace MailMerge.Docx

/-! ## Verbatim XML -/

/-- What is needed to write an element back into its part: the labels of namespaces and the
declarations of the part's root. -/
structure Labelling where
  labels : Xml.Labels
  declared : Declarations

namespace Labelling

/-- The labelling of a part, after parts that have registered labels before. -/
def ofPart (labels : Xml.Labels) (xml : Text) : Labelling :=
  let declared := Declarations.ofDocument xml
  { labels := declared.register labels, declared }

/-- The element as it is written back. -/
def verbatim (l : Labelling) (e : Xml.Element) : Text :=
  l.declared.strip (e.toXml l.labels)

/-- The first child of a name as it is written back; empty if there is none. -/
def childXml (l : Labelling) (e : Xml.Element) (name : Xml.Name) : Text :=
  ((e.child? name).map l.verbatim).getD []

end Labelling

/-! ## Runs -/

/-- The break is one between lines. -/
def breaksLine (e : Xml.Element) : Bool :=
  match e.attribute? Tag.breakKind with
  | none => true
  | some kind => kind = "textWrapping".toList

/-- What an element of a run adds to its text, if it is text. -/
def textOf? (e : Xml.Element) : Option Text :=
  if e.name = Tag.text then some e.text
  else if e.name = Tag.tab then some ['\t']
  else if (e.name = Tag.lineBreak ∨ e.name = Tag.carriageReturn) ∧ breaksLine e then some ['\n']
  else none

/-- The elements of a run that count as its content. -/
def contentOf (e : Xml.Element) : List Xml.Element :=
  e.children.filter fun c => c.name ≠ Tag.runProperties ∧ c.name ≠ Tag.renderedPageBreak

/-- The run of an element; none if it has no content. -/
def runs (l : Labelling) (e : Xml.Element) : List Run :=
  let style := l.childXml e Tag.runProperties
  match (contentOf e).mapM textOf? with
  | none => [{ style, raw := some (l.verbatim e) }]
  | some [] => []
  | some pieces => [{ text := pieces.flatten, style }]

/-- The runs of an element of a paragraph. -/
def paragraphRuns (l : Labelling) (e : Xml.Element) : List Run :=
  if e.name = Tag.run then runs l e
  else if e.name ∈ Tag.wrappers then (e.allNamed Tag.run).flatMap (runs l)
  else if e.name = Tag.paragraphProperties ∨ e.name ∈ Tag.ignored then []
  else [{ raw := some (l.verbatim e) }]

/-! ## Paragraphs -/

/-- The runs of the element hold one page break and nothing else. -/
def holdsPageBreak (e : Xml.Element) : Bool :=
  let breaks := (e.allNamed Tag.lineBreak).filter fun b =>
    b.attribute? Tag.breakKind = some "page".toList
  breaks.length = 1 && (e.allNamed Tag.run).all fun r =>
    r.children.all fun c => c.name = Tag.runProperties || c.name = Tag.lineBreak

/-- The node of a paragraph's element: a page break if that is all it holds. -/
def paragraphNode (l : Labelling) (e : Xml.Element) : Node :=
  let p : Paragraph :=
    { runs := e.children.flatMap (paragraphRuns l)
      attributes := l.childXml e Tag.paragraphProperties }
  if p.text = [] ∧ p.runs.length = 1 ∧ holdsPageBreak e then .pageBreak p.attributes
  else .paragraph p

/-! ## Blocks -/

mutual

/-- The nodes of elements, those of one name left out. -/
def blocks (l : Labelling) (skipped : Option Xml.Name) : List Xml.Element → List Node
  | [] => []
  | e :: es => (if skipped = some e.name then [] else block l e) ++ blocks l skipped es

/-- The nodes of an element. -/
def block (l : Labelling) : Xml.Element → List Node
  | .mk name attributes text children tail =>
    let e := Xml.Element.mk name attributes text children tail
    if name = Tag.paragraph then [paragraphNode l e]
    else if name = Tag.table then
      [.table (l.childXml e Tag.tableProperties ++ l.childXml e Tag.tableGrid) (rows l children)]
    else if name = Tag.control then (controlBlocks? l children).getD [.verbatim (l.verbatim e)]
    else [.verbatim (l.verbatim e)]

/-- The nodes inside a content control; none if it has no content. -/
def controlBlocks? (l : Labelling) : List Xml.Element → Option (List Node)
  | [] => none
  | .mk name _ _ children _ :: es =>
    if name = Tag.controlContent then some (blocks l none children) else controlBlocks? l es

/-- The rows of a table. -/
def rows (l : Labelling) : List Xml.Element → List Node
  | [] => []
  | .mk name attributes text children tail :: es =>
    let e := Xml.Element.mk name attributes text children tail
    if name = Tag.row then
      .row (l.childXml e Tag.rowExceptions ++ l.childXml e Tag.rowProperties) (cells l children)
        :: rows l es
    else rows l es

/-- The cells of a row. -/
def cells (l : Labelling) : List Xml.Element → List Node
  | [] => []
  | .mk name attributes text children tail :: es =>
    let e := Xml.Element.mk name attributes text children tail
    if name = Tag.cell then
      .cell (l.childXml e Tag.cellProperties) (blocks l (some Tag.cellProperties) children)
        :: cells l es
    else cells l es

end

/-! ## Parts -/

/-- The element that holds the blocks of a part: the body of a main part, or else the root. -/
def container? (root : Xml.Element) : Option Xml.Element :=
  if root.name = Tag.document then root.child? Tag.body else some root

/-- The part of a name, from its XML. -/
def readPart (l : Labelling) (name xml : Text) : Except Defect Part := do
  let root ← (Xml.parse? xml).elim (.error (.malformed name)) .ok
  let container ← (container? root).elim (.error (.noBody name)) .ok
  return { name, nodes := blocks l none container.children }

end MailMerge.Docx
